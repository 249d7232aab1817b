import Xv6.Sched.Running

/-! # `sleep` and `wakeup` lose no wakeup

A process that has released `lk` in `sleep(chan, lk)` keeps `p->lock` until it is
SLEEPING. A `wakeup(chan)` by a CPU that holds `lk` started after that release,
so its scan reaches the process only when the process can be woken. -/

namespace Xv6.Sched

open State

/-- A `wakeup(chan)` made under `lk` has returned. -/
def Event.Wakes (chan : Chan) (lk : Lock) : Event → Prop
  | .woke woken under => woken = some chan ∧ under lk = true
  | _ => False

/-- The event is neither such a return nor another `sleep` of `p`. -/
def Event.Silent (p : Nat) (call : SleepCall) (event : Event) : Prop :=
  ¬event.Wakes (call.chan p) call.lock ∧ ∀ other, event ≠ .released p other

/-- The last `sleep` of `p` is `call`, and no wakeup for it, made under its lock,
has returned since it released the lock. -/
def Since (p : Nat) (call : SleepCall) (history : List Event) : Prop :=
  ∃ after before, history = after ++ .released p call :: before ∧
    ∀ event ∈ after, event.Silent p call

theorem Since.append {p : Nat} {call : SleepCall} {history new : List Event}
    (since : Since p call history) (silent : ∀ event ∈ new, event.Silent p call) :
    Since p call (new ++ history) := by
  rcases since with ⟨after, before, rfl, quiet⟩
  refine ⟨new ++ after, before, (List.append_assoc ..).symm, ?_⟩
  intro event member
  rcases List.mem_append.mp member with inside | inside
  · exact silent event inside
  · exact quiet event inside

/-- The process has released the lock of a call of `sleep` and has not been
woken. -/
def Proc.Asleep (proc : Proc) (call : SleepCall) : Prop :=
  (proc.state = .running ∧ proc.pc = .sleepReleased call) ∨
    (proc.state = .sleeping ∧ (proc.pc = .sleepSched call ∨ proc.pc = .sleepResumed call))

/-- The channel of a running `wakeup` and the first slot it has not visited. -/
def Pc.wakes : Pc → Option (Option Chan × Nat)
  | .wakeup chan next _ => some (chan, next)
  | .wakeupLocked chan slot _ => some (chan, slot)
  | _ => none

def Proc.wakes (proc : Proc) : Option (Option Chan × Nat) :=
  if proc.yielding = none then proc.pc.wakes else none

def Ctx.wakes (proc : Nat → Proc) : Ctx → Option (Option Chan × Nat)
  | .scheduler (.wake chan _ next _) => some (some (.other chan), next)
  | .scheduler (.wakeLocked chan _ slot _) => some (some (.other chan), slot)
  | .scheduler _ => none
  | .thread p => (proc p).wakes

/-- Where a CPU may hold a lock that `proc.c` does not use. -/
def Ctx.MayHold (proc : Nat → Proc) (lk : Nat) : Ctx → Prop
  | .scheduler (.wake _ held _ _) | .scheduler (.wakeLocked _ held _ _) => lk = held
  | .scheduler _ => False
  | .thread p => (proc p).yielding = none

variable {ctx : Ctx}

theorem Ctx.wakes_congr {proc after : Nat → Proc}
    (place : ∀ r, ctx = .thread r →
      (after r).pc = (proc r).pc ∧ (after r).yielding = (proc r).yielding) :
    ctx.wakes after = ctx.wakes proc := by
  cases ctx with
  | scheduler pc => cases pc <;> rfl
  | thread r =>
    rw [Ctx.wakes, Ctx.wakes, Proc.wakes, Proc.wakes, (place r rfl).1, (place r rfl).2]

theorem Ctx.MayHold.congr {proc after : Nat → Proc} (may : ctx.MayHold proc lk)
    (place : ∀ r, ctx = .thread r →
      (after r).pc = (proc r).pc ∧ (after r).yielding = (proc r).yielding) :
    ctx.MayHold after lk := by
  cases ctx with
  | scheduler pc => cases pc <;> exact may
  | thread r => exact (place r rfl).2.trans may

/-- The process is in a call of `sleep` and on its channel. -/
def Proc.InSleep (p : Nat) (proc : Proc) : Prop :=
  proc.yielding = none ∧
    ∃ call, (proc.pc = .sleepSched call ∨ proc.pc = .sleepResumed call) ∧
      proc.chan = some (call.chan p)

structure NoLoss (state : State) : Prop where
  inSleep : ∀ p, (state.proc p).state = .sleeping → (state.proc p).InSleep p
  since : ∀ p call, (state.proc p).Asleep call → Since p call state.history
  pending : ∀ p call c next, (state.proc p).Asleep call →
    (state.cpu c).ctx.wakes state.proc = some (some (call.chan p), next) →
    state.spin.owner call.lock = some c → next ≤ p
  mayHold : ∀ c lk, state.spin.owner (.other lk) = some c → (state.cpu c).ctx.MayHold state.proc lk

/-- No process falls asleep in a step from `before` to `after`. -/
structure Proc.Calmer (before after : Proc) : Prop where
  sleeping : after.state = .sleeping → before.Same after
  released : after.state = .running → ∀ call, after.pc = .sleepReleased call →
    before.state = .running ∧ before.pc = .sleepReleased call

theorem Proc.Calmer.refl (proc : Proc) : proc.Calmer proc :=
  ⟨fun _ => Proc.Same.refl _, fun running _ found => ⟨running, found⟩⟩

variable {call : SleepCall}

theorem Proc.Calmer.asleep {before after : Proc} (calmer : before.Calmer after)
    (asleep : after.Asleep call) : before.Asleep call := by
  rcases asleep with ⟨running, released⟩ | ⟨sleeping, pc⟩
  · exact .inl (calmer.released running call released)
  · have same := calmer.sleeping sleeping
    rw [same.pc] at pc
    rw [same.state] at sleeping
    exact .inr ⟨sleeping, pc⟩

variable {r : Nat}

theorem Touched.calmer {after : Proc} (touched : Touched state c r after) :
    (state.proc r).Calmer after := by
  rcases touched with same | ⟨_, _, notSleeping, parked, _⟩
  · refine ⟨fun _ => same, fun running call found => ?_⟩
    rw [← same.pc, ← same.state]
    exact ⟨running, found⟩
  · exact ⟨fun sleeping => absurd sleeping notSleeping,
      fun running => absurd running parked.notRunning⟩

section Steps

variable {slots : Nat} {state after : State} {c p : Nat} {pc : Pc}

/-- A step in which no process releases the lock of a `sleep`; `new` is what the
history gains. -/
theorem NoLoss.frame (noLoss : NoLoss state) (new : List Event)
    (history : after.history = new ++ state.history)
    (inSleep : ∀ r, (after.proc r).state = .sleeping → (after.proc r).InSleep r)
    (asleep : ∀ r call, (after.proc r).Asleep call → (state.proc r).Asleep call)
    (silent : ∀ event ∈ new, ∀ r call, (state.proc r).Asleep call → event.Silent r call)
    (others : ∀ d lk, d ≠ c → after.spin.owner lk = some d → state.spin.owner lk = some d)
    (cpus : ∀ d, d ≠ c → after.cpu d = state.cpu d)
    (place : ∀ d r, d ≠ c → (state.cpu d).ctx = .thread r →
      (after.proc r).pc = (state.proc r).pc ∧ (after.proc r).yielding = (state.proc r).yielding)
    (own : ∀ r call next, (after.proc r).Asleep call →
      (after.cpu c).ctx.wakes after.proc = some (some (call.chan r), next) →
      after.spin.owner call.lock = some c → next ≤ r)
    (mayHold : ∀ lk, after.spin.owner (.other lk) = some c →
      (after.cpu c).ctx.MayHold after.proc lk) : NoLoss after where
  inSleep := inSleep
  since r call nowAsleep := by
    have before := asleep r call nowAsleep
    rw [history]
    exact (noLoss.since r call before).append fun event member =>
      silent event member r call before
  pending r call d next nowAsleep scan holds := by
    by_cases same : d = c
    · subst same
      exact own r call next nowAsleep scan holds
    · rw [cpus d same, Ctx.wakes_congr fun r => place d r same] at scan
      exact noLoss.pending r call d next (asleep r call nowAsleep) scan (others d _ same holds)
  mayHold d lk holds := by
    by_cases same : d = c
    · subst same
      exact mayHold lk holds
    · rw [cpus d same]
      exact (noLoss.mayHold d lk (others d _ same holds)).congr fun r => place d r same

variable {proc : Proc}

theorem NoLoss.inSleep_of_calmer (noLoss : NoLoss state) (calmer : (state.proc r).Calmer proc)
    (sleeping : proc.state = .sleeping) : proc.InSleep r := by
  have same := calmer.sleeping sleeping
  rw [Proc.InSleep, same.pc, same.yielding, same.chan]
  exact noLoss.inSleep r (same.state ▸ sleeping)

section Own

variable (noLoss : NoLoss state) (consistent : Consistent slots state)
  (here : (state.cpu c).ctx = .thread p) (effect : Effect slots state c p after)

include consistent here effect

theorem Effect.place (d r : Nat) (different : d ≠ c) (there : (state.cpu d).ctx = .thread r) :
    (after.proc r).pc = (state.proc r).pc ∧ (after.proc r).yielding = (state.proc r).yielding :=
  have same := effect.same consistent here different there
  ⟨same.pc, same.yielding⟩

include noLoss

theorem NoLoss.thread (notSleeping : (after.proc p).state ≠ .sleeping)
    (notReleased : (after.proc p).state = .running → ∀ call,
      (after.proc p).pc ≠ .sleepReleased call)
    (new : List Event) (history : after.history = new ++ state.history)
    (silent : ∀ event ∈ new, ∀ r call, (state.proc r).Asleep call → event.Silent r call)
    (own : ∀ r call next, r ≠ p → (after.proc r).Asleep call →
      (after.proc p).wakes = some (some (call.chan r), next) →
      after.spin.owner call.lock = some c → next ≤ r)
    (mayHold : ∀ lk, after.spin.owner (.other lk) = some c → (after.proc p).yielding = none) :
    NoLoss after := by
  have calm : ∀ r, (state.proc r).Calmer (after.proc r) := by
    intro r
    by_cases same : r = p
    · subst same
      exact ⟨fun sleeping => absurd sleeping notSleeping,
        fun running call found => absurd found (notReleased running call)⟩
    · exact (effect.rest r same).calmer
  apply noLoss.frame (c := c) new history _ (fun r call => (calm r).asleep) silent
  · exact fun d lk different holds => (effect.locking.others lk d different).mp holds
  · exact fun d _ => congrFun effect.cpu d
  · exact Effect.place consistent here effect
  · intro r call next asleep scan holds
    have ne : r ≠ p := by
      intro equal
      subst equal
      rcases asleep with ⟨running, released⟩ | ⟨sleeping, _⟩
      · exact notReleased running call released
      · exact notSleeping sleeping
    rw [effect.cpu, here, Ctx.wakes] at scan
    exact own r call next ne asleep scan holds
  · intro lk holds
    rw [effect.cpu, here]
    exact mayHold lk holds
  · exact fun r => noLoss.inSleep_of_calmer (calm r)

theorem NoLoss.move (awake : (after.proc p).yielding = none)
    (notReleased : ∀ call, (after.proc p).pc ≠ .sleepReleased call)
    (notSched : ∀ call, (after.proc p).pc ≠ .sleepSched call)
    (new : List Event) (history : after.history = new ++ state.history)
    (silent : ∀ event ∈ new, ∀ r call, (state.proc r).Asleep call → event.Silent r call)
    (own : ∀ r call next, r ≠ p → (after.proc r).Asleep call →
      (after.proc p).pc.wakes = some (some (call.chan r), next) →
      after.spin.owner call.lock = some c → next ≤ r) : NoLoss after := by
  apply noLoss.thread consistent here effect _ (fun _ => notReleased) new history silent
  · intro r call next different asleep scan holds
    rw [Proc.wakes, if_pos awake] at scan
    exact own r call next different asleep scan holds
  · exact fun _ _ => awake
  · rw [effect.self, Proc.threadState, awake]
    intro sleeping
    cases found : (after.proc p).pc with
    | sleepSched call => exact notSched call found
    | _ => simp [found, Pc.state] at sleeping

/-- A process releases the lock of its `sleep`: nobody else holds the lock, so
no `wakeup` under it is on its way. -/
theorem NoLoss.sleepRelease {call : SleepCall}
    (afterEq : after = ((state.drop c call.lock).setPc p (.sleepReleased call)).record
      (.released p call))
    (awake : (state.proc p).yielding = none) : NoLoss after := by
  have other : ∀ {r}, r ≠ p → after.proc r = state.proc r := fun different => by
    rw [afterEq]
    exact setPc_proc_of_ne _ _ different
  have own : after.proc p = { state.proc p with pc := .sleepReleased call } := by
    rw [afterEq]
    exact setPc_proc_self ..
  have spin : ∀ {lk d}, after.spin.owner lk = some d →
      state.spin.owner lk = some d ∧ lk ≠ call.lock := fun holds =>
    Spinlocks.dropped_owner_iff.mp (by rw [afterEq] at holds; exact holds)
  have notSleeping : (state.proc p).state ≠ .sleeping := by
    have self := effect.self
    rw [own, Proc.threadState] at self
    simp only [awake, Pc.state] at self
    rw [self]
    intro equal
    cases equal
  have call_eq : ∀ other, ({ state.proc p with pc := .sleepReleased call } : Proc).Asleep other →
      other = call := by
    intro other asleep
    rcases asleep with ⟨_, released⟩ | ⟨sleeping, _⟩
    · exact (Pc.sleepReleased.inj released).symm
    · exact absurd sleeping notSleeping
  constructor
  · intro r sleeping
    by_cases same : r = p
    · subst same
      rw [own] at sleeping
      exact absurd sleeping notSleeping
    · rw [other same] at sleeping ⊢
      exact noLoss.inSleep r sleeping
  · intro r call' asleep
    rw [afterEq]
    by_cases same : r = p
    · subst same
      rw [own] at asleep
      rw [call_eq call' asleep]
      exact ⟨[], state.history, rfl, by simp⟩
    · rw [other same] at asleep
      refine @Since.append r call' _ [_] (noLoss.since r call' asleep) ?_
      intro event member
      rw [List.mem_singleton.mp member]
      exact ⟨id, fun _ equal => same (Event.released.inj equal).1.symm⟩
  · intro r call' d next asleep scan holds
    by_cases thisCpu : d = c
    · subst thisCpu
      rw [effect.cpu, here, Ctx.wakes, own, Proc.wakes] at scan
      simp [Pc.wakes] at scan
    · rw [effect.cpu, Ctx.wakes_congr fun r => effect.place consistent here d r thisCpu] at scan
      by_cases same : r = p
      · subst same
        rw [own] at asleep
        exact absurd (congrArg SleepCall.lock (call_eq call' asleep)) (spin holds).2
      · rw [other same] at asleep
        exact noLoss.pending r call' d next asleep scan (spin holds).1
  · intro d lk holds
    rw [effect.cpu]
    by_cases thisCpu : d = c
    · subst thisCpu
      rw [here, Ctx.MayHold, own]
      exact awake
    · exact (noLoss.mayHold d lk (spin holds).1).congr fun r =>
        effect.place consistent here d r thisCpu

theorem NoLoss.sleepState {call : SleepCall}
    (afterEq : after = state.setProc p
      { state.proc p with
        chan := some (call.chan p), state := .sleeping, pc := .sleepSched call })
    (awake : (state.proc p).yielding = none) (atPc : (state.proc p).pc = .sleepReleased call) :
    NoLoss after := by
  have other : ∀ {r}, r ≠ p → after.proc r = state.proc r := fun different => by
    rw [afterEq]
    exact setProc_proc_of_ne _ _ different
  have own : after.proc p = { state.proc p with
      chan := some (call.chan p), state := .sleeping, pc := .sleepSched call } := by
    rw [afterEq, setProc_proc_self]
  have running : (state.proc p).state = .running := by
    rw [consistent.thread c p here, Proc.threadState, awake, atPc]
    rfl
  refine noLoss.frame (c := c) [] (by rw [afterEq]; rfl) ?_ ?_ (by simp) ?_
    (fun d _ => congrFun effect.cpu d) (effect.place consistent here) ?_ ?_
  · intro r sleeping
    by_cases same : r = p
    · subst same
      rw [own]
      exact ⟨awake, call, .inl rfl, rfl⟩
    · rw [other same] at sleeping ⊢
      exact noLoss.inSleep r sleeping
  · intro r call' asleep
    by_cases same : r = p
    · subst same
      rw [own] at asleep
      rcases asleep with ⟨impossible, _⟩ | ⟨_, sched | resumed⟩
      · cases impossible
      · rw [← Pc.sleepSched.inj sched]
        exact .inl ⟨running, atPc⟩
      · cases resumed
    · rw [other same] at asleep
      exact asleep
  · rw [afterEq]
    exact fun _ _ _ holds => holds
  · intro r call' next _ scan _
    rw [effect.cpu, here, Ctx.wakes, own, Proc.wakes] at scan
    simp [Pc.wakes] at scan
  · intro lk _
    rw [effect.cpu, here, Ctx.MayHold, own]
    exact awake

end Own

variable {slot : Nat}

theorem setSlot_yielding (state : State)
    (same : proc.yielding = (state.proc slot).yielding ∨ proc.yielding = none)
    (awake : (state.proc p).yielding = none) :
    (((state.setProc slot proc).setPc p pc).proc p).yielding = none := by
  rw [setPc_proc_self]
  by_cases own : p = slot
  · subst own
    rw [setProc_proc_self]
    rcases same with kept | none
    · exact kept.trans awake
    · exact none
  · rw [setProc_proc_of_ne _ _ own]
    exact awake

theorem wakeProc_yielding (chan : Option Chan) (proc : Proc) :
    (wakeProc chan proc).yielding = proc.yielding := by
  rw [wakeProc]
  split <;> rfl

theorem wakeProc_pc (chan : Option Chan) (proc : Proc) :
    (wakeProc chan proc).pc = proc.pc := by
  rw [wakeProc]
  split <;> rfl

theorem Moves.awake (moves : Moves slots state c p pc after)
    (awake : (state.proc p).yielding = none) : (after.proc p).yielding = none := by
  cases moves with
  | acquire | release => exact awake
  | wakeupSlot => exact setSlot_yielding _ (.inl (wakeProc_yielding ..)) awake
  | killFound | reparentChild | forkRelease | forkFail | forkParent | forkRunnable
  | waitReport =>
    exact setSlot_yielding _ (.inl (by rfl)) awake
  | forkAlloc => exact setSlot_yielding _ (.inr (by rfl)) awake
  | _ => simpa using awake

theorem Consistent.exists_thread (consistent : Consistent slots state)
    (running : (state.proc r).state = .running) : ∃ d, (state.cpu d).ctx = .thread r := by
  by_contra nowhere
  exact (consistent.parked r (not_exists.mp nowhere)).notRunning running

theorem Consistent.asleep_lt (consistent : Consistent slots state)
    (asleep : (state.proc r).Asleep call) : r < slots := by
  rcases asleep with ⟨running, _⟩ | ⟨sleeping, _⟩
  · rcases consistent.exists_thread running with ⟨d, there⟩
    exact (consistent.context d r there).2
  · by_contra beyond
    exact consistent.outside r (Nat.le_of_not_lt beyond) sleeping

theorem NoLoss.awakened (noLoss : NoLoss state) (consistent : Consistent slots state)
    (holds : state.spin.owner (.proc slot) = some c) (different : (state.cpu c).ctx ≠ .thread slot)
    (equal : chan = some (call.chan slot)) (asleep : (state.proc slot).Asleep call) :
    ¬(wakeProc chan (state.proc slot)).Asleep call := by
  rcases asleep with ⟨running, released⟩ | ⟨sleeping, pc⟩
  · rcases consistent.exists_thread running with ⟨d, there⟩
    have yields : (state.proc slot).yielding = none := by
      by_contra interrupted
      have external := consistent.interrupted slot interrupted (.proc slot)
      rw [released] at external
      exact absurd (external (List.mem_singleton_self _)) nofun
    have mine : state.spin.owner (.proc slot) = some d := by
      rw [consistent.owner d _ rfl, there, Ctx.locks, Proc.locks, yields, released]
      exact List.mem_singleton_self _
    rw [holds] at mine
    rw [Option.some.inj mine] at different
    exact absurd there different
  · rcases noLoss.inSleep slot sleeping with ⟨_, other, here, onChannel⟩
    have same : other = call := by
      rcases pc with pc | pc <;> rw [pc] at here <;> simpa [eq_comm] using here
    have woken : (wakeProc chan (state.proc slot)).state = .runnable := by
      rw [wakeProc, if_pos ⟨sleeping, by rw [onChannel, equal, same]⟩]
    intro still
    rcases still with ⟨running, _⟩ | ⟨stillSleeping, _⟩
    · rw [woken] at running
      cases running
    · rw [woken] at stillSleeping
      cases stillSleeping

theorem Moves.noLoss (moves : Moves slots state c p pc after)
    (consistent : Consistent slots state) (noLoss : NoLoss state)
    (here : (state.cpu c).ctx = .thread p) (awake : (state.proc p).yielding = none)
    (atPc : (state.proc p).pc = pc) : NoLoss after := by
  have effect := moves.effect consistent here awake atPc
  have awakeAfter := moves.awake awake
  -- a scan that this thread has under way before the step
  have before : ∀ r call chan next, pc.wakes = some (chan, next) → chan = some (call.chan r) →
      (state.proc r).Asleep call → state.spin.owner call.lock = some c → next ≤ r := by
    intro r call chan next scan equal asleep holds
    apply noLoss.pending r call c next asleep _ holds
    rw [here, Ctx.wakes, Proc.wakes, if_pos awake, atPc, scan, equal]
  cases moves with
  | sleepRelease => exact noLoss.sleepRelease consistent here effect rfl awake
  | sleepState => exact noLoss.sleepState consistent here effect rfl awake atPc
  | wakeupSelf =>
    refine noLoss.move consistent here effect awakeAfter (by simp) (by simp) [] rfl nofun ?_
    intro r call next different asleep scan holds
    rw [setPc_proc_of_ne _ _ different] at asleep
    simp only [setPc_proc_self, Pc.wakes, Option.some.injEq, Prod.mk.injEq] at scan
    have bound := before r call _ p rfl scan.1 asleep holds
    omega
  | @wakeupLock chan next ret inside notSelf available =>
    refine noLoss.move consistent here effect awakeAfter (by simp) (by simp) [] rfl nofun ?_
    intro r call other different asleep scan holds
    rw [setPc_proc_of_ne _ _ different] at asleep
    simp only [setPc_proc_self, Pc.wakes, Option.some.injEq, Prod.mk.injEq] at scan
    rcases (Spinlocks.taken_owner_iff available).mp holds with already | ⟨equal, _⟩
    · exact scan.2 ▸ before r call _ next rfl scan.1 asleep already
    · cases call <;> cases equal
  | @wakeupReturn chan next ret outside =>
    refine noLoss.move consistent here effect awakeAfter ?_ ?_ [_] rfl ?_ ?_
    · cases ret <;> simp [WakeupReturn.pc]
    · cases ret <;> simp [WakeupReturn.pc]
    · intro event member r call asleep
      rw [List.mem_singleton.mp member]
      refine ⟨fun wakes => ?_, nofun⟩
      have bound := before r call chan next rfl wakes.1 asleep (by simpa using wakes.2)
      have inside := consistent.asleep_lt asleep
      omega
    · cases ret <;> simp [WakeupReturn.pc, Pc.wakes]
  | @wakeupSlot chan slot ret holds =>
    refine noLoss.move consistent here effect awakeAfter (by simp) (by simp) [] rfl nofun ?_
    intro r call next different asleep scan held
    simp only [setPc_proc_self, Pc.wakes, Option.some.injEq, Prod.mk.injEq] at scan
    rw [setPc_proc_of_ne _ _ different] at asleep
    have asleepBefore : (state.proc r).Asleep call := by
      by_cases same : r = slot
      · subst same
        rw [setProc_proc_self] at asleep
        exact (wakeProc_touched consistent chan holds (by
          rw [here]
          exact fun equal => different (Ctx.thread.inj equal).symm)).calmer.asleep asleep
      · rw [setProc_proc_of_ne _ _ same] at asleep
        exact asleep
    have bound := before r call chan slot rfl scan.1 asleepBefore
      (Spinlocks.dropped_owner_iff.mp held).1
    have ne : r ≠ slot := by
      intro equal
      subst equal
      rw [setProc_proc_self] at asleep
      exact noLoss.awakened consistent holds (by
        rw [here]
        exact fun equal => different (Ctx.thread.inj equal).symm) scan.1 asleepBefore asleep
    omega
  | waitReport | forkAlloc | exitState =>
    refine noLoss.move consistent here effect awakeAfter (by simp) (by simp) [_] rfl ?_
      (by simp [Pc.wakes])
    intro event member r call _
    rw [List.mem_singleton.mp member]
    exact ⟨id, nofun⟩
  | acquire | release =>
    refine noLoss.move consistent here effect awakeAfter ?_ ?_ [] rfl nofun ?_ <;>
      simp [atPc, Pc.wakes]
  | @sleepReturn call =>
    cases call <;>
    refine noLoss.move consistent here effect awakeAfter ?_ ?_ [] rfl nofun ?_ <;>
      simp [SleepCall.pc, Pc.wakes]
  | waitTested next =>
    rcases next with equal | equal <;> subst equal <;>
    refine noLoss.move consistent here effect awakeAfter ?_ ?_ [] rfl nofun ?_ <;> simp [Pc.wakes]
  | callWakeup | reparentChild | reparented =>
    refine noLoss.move consistent here effect awakeAfter (by simp) (by simp) [] rfl nofun ?_
    intro r call next _ _ scan _
    simp only [setPc_proc_self, Pc.wakes, Option.some.injEq, Prod.mk.injEq] at scan
    omega
  | _ =>
    refine noLoss.move consistent here effect awakeAfter ?_ ?_ [] rfl nofun ?_ <;> simp [Pc.wakes]

theorem Yields.noLoss (yields : Yields state c p after) (consistent : Consistent slots state)
    (noLoss : NoLoss state) (here : (state.cpu c).ctx = .thread p) : NoLoss after := by
  have effect := yields.effect consistent here
  have notReleased : ∀ proc : Proc, (∀ lk ∈ proc.pc.locks p, lk.internal = false) →
      ∀ call, proc.pc ≠ .sleepReleased call := by
    intro proc external call released
    rw [released] at external
    exact absurd (external (.proc p) (List.mem_singleton_self _)) (by simp [Lock.internal])
  cases yields with
  | timer awake enabled available =>
    refine noLoss.thread consistent here effect ?_ ?_ [] rfl (by simp) ?_ ?_
    · rw [effect.self]
      simp [Proc.threadState]
    · intro _
      exact notReleased _ (effect.interrupted (by simp))
    · simp [Proc.wakes]
    · intro lk holds
      rcases (Spinlocks.taken_owner_iff available).mp holds with held | ⟨impossible, _⟩
      · exact absurd held (consistent.counted.owner_ne enabled _)
      · cases impossible
  | yield inside =>
    refine noLoss.thread consistent here effect (by simp) (by simp) [] rfl (by simp)
      (by simp [Proc.wakes]) ?_
    intro lk holds
    have impossible := noLoss.mayHold c lk holds
    rw [here, Ctx.MayHold, inside] at impossible
    cases impossible
  | resume inside holds =>
    refine noLoss.thread consistent here effect ?_ ?_ [] rfl (by simp) ?_ (by simp)
    · simp only [setProc_proc_self]
      rw [consistent.thread c p here, Proc.threadState, inside]
      intro equal
      cases equal
    · intro _ call
      simp only [setProc_proc_self]
      exact notReleased _ (consistent.interrupted p (by rw [inside]; intro equal; cases equal)) call
    · intro r call next _ _ _ held
      have before := (Spinlocks.dropped_owner_iff.mp held).1
      cases call with
      | other chan lk =>
        have impossible := noLoss.mayHold c lk before
        rw [here, Ctx.MayHold, inside] at impossible
        cases impossible
      | wait =>
        have member := (consistent.owner c .wait rfl).mp before
        rw [here, Ctx.locks, Proc.locks, inside] at member
        cases List.mem_singleton.mp member

theorem NoLoss.switchOut (noLoss : NoLoss state) (consistent : Consistent slots state)
    (here : (state.cpu c).ctx = .thread p) (holds : state.spin.owner (.proc p) = some c)
    (only : state.spin.noff c = 1) (inSleep : proc.state = .sleeping → proc.InSleep p)
    (asleep : ∀ call, proc.Asleep call → (state.proc p).Asleep call) :
    NoLoss ((state.setProc p proc).setCtx c (.scheduler (.back (state.cpu c).context))) := by
  have other : ∀ {r}, r ≠ p → (((state.setProc p proc).setCtx c
      (.scheduler (.back (state.cpu c).context))).proc r) = state.proc r :=
    fun different => setProc_proc_of_ne _ _ different
  refine noLoss.frame (c := c) [] (by rfl) ?_ ?_ nofun (fun _ _ _ held => held)
    (fun d different => setCtx_cpu_of_ne _ _ different) ?_ ?_ ?_
  · intro r sleeping
    by_cases same : r = p
    · subst same
      rw [setCtx_proc, setProc_proc_self] at sleeping ⊢
      exact inSleep sleeping
    · rw [other same] at sleeping ⊢
      exact noLoss.inSleep r sleeping
  · intro r call nowAsleep
    by_cases same : r = p
    · subst same
      rw [setCtx_proc, setProc_proc_self] at nowAsleep
      exact asleep call nowAsleep
    · rw [other same] at nowAsleep
      exact nowAsleep
  · intro d r different there
    rw [other fun equal : r = p => different (consistent.unique d c r there (equal ▸ here))]
    exact ⟨rfl, rfl⟩
  · intro r call next _ scan _
    rw [setCtx_cpu_self] at scan
    cases scan
  · intro lk held
    cases consistent.counted.owner_unique only holds held

theorem Switches.noLoss (switches : Switches state c p after)
    (consistent : Consistent slots state) (noLoss : NoLoss state)
    (here : (state.cpu c).ctx = .thread p) : NoLoss after := by
  have self := consistent.thread c p here
  cases switches with
  | schedYield inside holds only =>
    have runnable : (state.proc p).state = .runnable := by
      rw [self, Proc.threadState, inside]
    apply noLoss.switchOut consistent here holds only <;> simp [runnable, Proc.Asleep]
  | @schedSleep call awake inside holds only =>
    have sleeping : (state.proc p).state = .sleeping := by
      rw [self, Proc.threadState, awake, inside]
      rfl
    rcases noLoss.inSleep p sleeping with ⟨_, called, pc, chan⟩
    have same : called = call := by
      rcases pc with pc | pc
      · exact Pc.sleepSched.inj (pc.symm.trans inside)
      · cases pc.symm.trans inside
    apply noLoss.switchOut consistent here holds only
    · intro _
      exact ⟨awake, call, .inr rfl, same ▸ chan⟩
    · intro other asleep
      rcases asleep with ⟨running, _⟩ | ⟨_, sched | resumed⟩
      · rw [sleeping] at running
        cases running
      · cases sched
      · rw [← Pc.sleepResumed.inj resumed]
        exact .inr ⟨sleeping, .inl inside⟩
  | schedExit awake inside holds only =>
    have zombie : (state.proc p).state = .zombie := by
      rw [self, Proc.threadState, awake, inside]
      rfl
    apply noLoss.switchOut consistent here holds only <;> simp [zombie, Proc.Asleep]

theorem NoLoss.schedule (noLoss : NoLoss state) {cpu : Cpu}
    (cpus : after.cpu = Function.update state.cpu c cpu)
    (place : ∀ r, (after.proc r).pc = (state.proc r).pc ∧
      (after.proc r).yielding = (state.proc r).yielding)
    (calm : ∀ r, (state.proc r).Calmer (after.proc r))
    (new : List Event) (history : after.history = new ++ state.history)
    (silent : ∀ event ∈ new, ∀ r call, (state.proc r).Asleep call → event.Silent r call)
    (others : ∀ d lk, d ≠ c → after.spin.owner lk = some d → state.spin.owner lk = some d)
    (own : ∀ r call next, (after.proc r).Asleep call →
      cpu.ctx.wakes after.proc = some (some (call.chan r), next) →
      after.spin.owner call.lock = some c → next ≤ r)
    (mayHold : ∀ lk, after.spin.owner (.other lk) = some c → cpu.ctx.MayHold after.proc lk) :
    NoLoss after := by
  apply noLoss.frame (c := c) new history _ (fun r call => (calm r).asleep) silent others
  · intro d different
    rw [cpus, Function.update_of_ne different]
  · exact fun d r _ _ => place r
  · rw [cpus, Function.update_self]
    exact own
  · rw [cpus, Function.update_self]
    exact mayHold
  · exact fun r => noLoss.inSleep_of_calmer (calm r)

theorem setProc_place (pc : proc.pc = (state.proc slot).pc)
    (yielding : proc.yielding = (state.proc slot).yielding) (r : Nat) :
    ((state.setProc slot proc).proc r).pc = (state.proc r).pc ∧
      ((state.setProc slot proc).proc r).yielding = (state.proc r).yielding := by
  by_cases same : r = slot
  · subst same
    rw [setProc_proc_self]
    exact ⟨pc, yielding⟩
  · rw [setProc_proc_of_ne _ _ same]
    exact ⟨rfl, rfl⟩

theorem setProc_calmer (calmer : (state.proc slot).Calmer proc) (r : Nat) :
    (state.proc r).Calmer ((state.setProc slot proc).proc r) := by
  by_cases same : r = slot
  · subst same
    rw [setProc_proc_self]
    exact calmer
  · rw [setProc_proc_of_ne _ _ same]
    exact Proc.Calmer.refl _

section

variable (consistent : Consistent slots state)
  (here : (state.cpu c).ctx = .scheduler (.locked slot))
  (runnable : (state.proc slot).state = .runnable)

include consistent here runnable

theorem Consistent.place_of_runnable :
    (state.proc slot).wakes = none ∧ ∀ call, (state.proc slot).pc ≠ .sleepReleased call := by
  have holds : state.spin.owner (.proc slot) = some c := by
    rw [consistent.owner c _ rfl, here]
    exact List.mem_singleton_self _
  have notRunning : (state.proc slot).state ≠ .running := by
    rw [runnable]
    exact nofun
  have idle : ∀ d, (state.cpu d).ctx ≠ .thread slot := fun d =>
    consistent.not_thread holds notRunning (by rw [here]; exact nofun)
  rcases (consistent.parked slot idle).resumable (.inr (.inl runnable)) with
    yielding | ⟨awake, first | ⟨call, resumed⟩⟩
  · refine ⟨by simp [Proc.wakes, yielding], fun call released => ?_⟩
    have external := consistent.interrupted slot (by rw [yielding]; exact nofun) (.proc slot)
    rw [released] at external
    exact absurd (external (List.mem_singleton_self _)) nofun
  · exact ⟨by simp [Proc.wakes, awake, first, Pc.wakes], by simp [first]⟩
  · exact ⟨by simp [Proc.wakes, awake, resumed, Pc.wakes], by simp [resumed]⟩

theorem Consistent.dispatch_calmer :
    (state.proc slot).Calmer { state.proc slot with state := .running } :=
  ⟨nofun, fun _ call released =>
    absurd released ((consistent.place_of_runnable here runnable).2 call)⟩

end

theorem NoLoss.dispatch (noLoss : NoLoss state) (consistent : Consistent slots state)
    {slot : Nat} (here : (state.cpu c).ctx = .scheduler (.locked slot))
    (runnable : (state.proc slot).state = .runnable) :
    NoLoss
      { state.setProc slot { state.proc slot with state := .running } with
        cpu := Function.update state.cpu c
          { proc := some slot, context := slot, ctx := .thread slot } } := by
  refine noLoss.schedule (by rfl) (setProc_place (by rfl) (by rfl))
    (setProc_calmer (consistent.dispatch_calmer here runnable)) [] (by rfl) nofun
    (fun _ _ _ held => held) ?_ ?_
  · intro r call next _ scan _
    have silent : ({ state.proc slot with state := .running } : Proc).wakes = none :=
      (consistent.place_of_runnable here runnable).1
    simp only [Ctx.wakes, setProc_proc_self, silent] at scan
    cases scan
  · intro lk held
    have impossible := noLoss.mayHold c lk held
    rw [here] at impossible
    exact absurd impossible id

theorem Schedules.noLoss {pc : SchedPc} (schedules : Schedules slots state c pc after)
    (consistent : Consistent slots state) (noLoss : NoLoss state)
    (here : (state.cpu c).ctx = .scheduler pc) : NoLoss after := by
  have place : ∀ r, (state.proc r).pc = (state.proc r).pc ∧
      (state.proc r).yielding = (state.proc r).yielding := fun _ => ⟨rfl, rfl⟩
  have calm : ∀ r, (state.proc r).Calmer (state.proc r) := fun _ => Proc.Calmer.refl _
  have mayHold : ∀ lk, state.spin.owner (.other lk) = some c →
      (Ctx.scheduler pc).MayHold state.proc lk := by
    intro lk holds
    rw [← here]
    exact noLoss.mayHold c lk holds
  have before : ∀ r call next, (state.proc r).Asleep call →
      (Ctx.scheduler pc).wakes state.proc = some (some (call.chan r), next) →
      state.spin.owner call.lock = some c → next ≤ r := by
    intro r call next asleep scan holds
    exact noLoss.pending r call c next asleep (here ▸ scan) holds
  -- the locks of the other CPUs
  have takes : ∀ {lk : Lock}, state.spin.owner lk = none → ∀ d other, d ≠ c →
      (state.spin.taken c lk).owner other = some d → state.spin.owner other = some d := by
    intro lk available d other different holds
    rcases (Spinlocks.taken_owner_iff available).mp holds with held | ⟨_, equal⟩
    · exact held
    · exact absurd equal different
  have drops : ∀ {lk : Lock}, ∀ d other, d ≠ c →
      (state.spin.dropped c lk).owner other = some d → state.spin.owner other = some d :=
    fun d other _ holds => (Spinlocks.dropped_owner_iff.mp holds).1
  have notProc : ∀ {call : SleepCall} {slot : Nat}, call.lock ≠ .proc slot := by
    intro call slot
    cases call <;> exact nofun
  cases schedules with
  | lock inside available =>
    refine noLoss.schedule (by rfl) place calm [] rfl nofun (takes available) ?_ ?_
    · intro _ _ _ _ scan
      cases scan
    · intro lk holds
      rcases (Spinlocks.taken_owner_iff available).mp holds with held | ⟨impossible, _⟩
      · exact mayHold lk held
      · cases impossible
  | again =>
    refine noLoss.schedule (by rfl) place calm [] rfl nofun (fun _ _ _ held => held) ?_ ?_
    · intro _ _ _ _ scan
      cases scan
    · exact mayHold
  | interrupt available =>
    refine noLoss.schedule (by rfl) place calm [] rfl nofun (takes available) ?_ ?_
    · intro r call next _ scan _
      simp only [Ctx.wakes, Option.some.injEq, Prod.mk.injEq] at scan
      omega
    · intro lk holds
      rcases (Spinlocks.taken_owner_iff available).mp holds with held | ⟨equal, _⟩
      · exact absurd (mayHold lk held) id
      · exact Lock.other.inj equal
  | dispatch runnable => exact noLoss.dispatch consistent here runnable
  | skip holds | finish holds =>
    refine noLoss.schedule (by rfl) place calm [] rfl nofun drops ?_ ?_
    · intro _ _ _ _ scan
      cases scan
    · exact fun lk held => mayHold lk (Spinlocks.dropped_owner_iff.mp held).1
  | @wakeLock chan lk next resume inside available =>
    refine noLoss.schedule (by rfl) place calm [] rfl nofun (takes available) ?_ ?_
    · intro r call slot asleep scan holds
      rcases (Spinlocks.taken_owner_iff available).mp holds with held | ⟨equal, _⟩
      · exact before r call slot asleep scan held
      · exact absurd equal notProc
    · intro other holds
      rcases (Spinlocks.taken_owner_iff available).mp holds with held | ⟨impossible, _⟩
      · exact mayHold other held
      · cases impossible
  | @wakeReturn chan lk next resume outside holds =>
    refine noLoss.schedule (by rfl) place calm [_] rfl ?_ drops ?_ ?_
    · intro event member r call asleep
      rw [List.mem_singleton.mp member]
      refine ⟨fun wakes => ?_, nofun⟩
      have scan : (Ctx.scheduler (.wake chan lk next resume)).wakes state.proc =
          some (some (call.chan r), next) := by
        rw [Ctx.wakes, wakes.1]
      have bound := before r call next asleep scan (by simpa using wakes.2)
      have inside := consistent.asleep_lt asleep
      omega
    · intro _ _ _ _ scan
      cases scan
    · intro other held
      rcases Spinlocks.dropped_owner_iff.mp held with ⟨before, different⟩
      exact absurd (congrArg Lock.other (mayHold other before)) different
  | @wakeSlot chan lk slot resume holds =>
    have notThread : (state.cpu c).ctx ≠ .thread slot := by
      rw [here]
      exact nofun
    have touched := wakeProc_touched consistent (some (.other chan)) holds notThread
    have calmAfter := setProc_calmer touched.calmer
    refine noLoss.schedule (by rfl) (setProc_place (wakeProc_pc ..) (wakeProc_yielding ..))
      calmAfter [] (by rfl) nofun drops ?_ ?_
    · intro r call next asleep scan held
      simp only [Ctx.wakes, Option.some.injEq, Prod.mk.injEq] at scan
      have asleepBefore := (calmAfter r).asleep asleep
      have bound := before r call slot asleepBefore (by rw [Ctx.wakes, scan.1])
        (Spinlocks.dropped_owner_iff.mp held).1
      have ne : r ≠ slot := by
        intro equal
        subst equal
        rw [setCtx_proc, setProc_proc_self] at asleep
        exact noLoss.awakened consistent holds notThread (congrArg some scan.1) asleepBefore asleep
      omega
    · exact fun lk held => mayHold lk (Spinlocks.dropped_owner_iff.mp held).1

variable {cpus : Nat}

theorem step_noLoss (consistent : Consistent slots state) (noLoss : NoLoss state)
    (stepEq : step slots cpus state label = .next after) : NoLoss after := by
  rcases step_cases stepEq with
    ⟨pc, here, schedules⟩ | ⟨p, here, yields | switches | ⟨awake, moves⟩⟩
  · exact schedules.noLoss consistent noLoss here
  · exact yields.noLoss consistent noLoss here
  · exact switches.noLoss consistent noLoss here
  · exact moves.noLoss consistent noLoss here awake rfl

theorem boot_noLoss : NoLoss boot where
  inSleep p sleeping := by
    by_cases first : p = initproc <;> simp [boot, first] at sleeping
  since p call asleep := by
    by_cases first : p = initproc <;> simp [boot, first, Proc.Asleep] at asleep
  pending _ _ _ _ _ := nofun
  mayHold _ _ := nofun

theorem run_noLoss (run : Steps (step slots cpus) boot labels state) : NoLoss state := by
  have both : Consistent slots state ∧ NoLoss state := by
    apply run.invariant _ ⟨boot_consistent slots, boot_noLoss⟩
    exact fun _ _ _ kept stepEq =>
      ⟨step_consistent kept.1 stepEq, step_noLoss kept.1 kept.2 stepEq⟩
  exact both.2

end Steps

/-- A SLEEPING process is in a call of `sleep`, on the channel of that call, and
no `wakeup` of the channel, made by a CPU that holds the lock of the call, has
returned since the call released the lock. -/
theorem sleep_misses_no_wakeup {slots cpus : Nat} {labels : List (Nat × Choice)} {state : State}
    (run : Steps (step slots cpus) boot labels state) {p : Nat}
    (sleeping : (state.proc p).state = .sleeping) :
    ∃ call, ((state.proc p).pc = .sleepSched call ∨ (state.proc p).pc = .sleepResumed call) ∧
      (state.proc p).chan = some (call.chan p) ∧
      ∃ after before, state.history = after ++ .released p call :: before ∧
        (∀ other, .released p other ∉ after) ∧
        ∀ event ∈ after, ¬event.Wakes (call.chan p) call.lock := by
  have noLoss := run_noLoss run
  rcases noLoss.inSleep p sleeping with ⟨_, call, pc, chan⟩
  rcases noLoss.since p call (.inr ⟨sleeping, pc⟩) with ⟨after, before, equal, silent⟩
  refine ⟨call, pc, chan, after, before, equal, ?_, fun event member => (silent event member).1⟩
  exact fun other member => (silent _ member).2 other rfl

/-- `init` takes a lock and goes to sleep under it, and an interrupt handler on
another CPU starts to wake the channel. -/
def sleepAndInterrupt : List (Nat × Choice) :=
  [(0, .proceed), (0, .proceed), (0, .proceed), (0, .call (.acquire 3)),
    (0, .call (.sleep 5 3)), (0, .proceed), (1, .interrupt 5 3), (0, .proceed)]

theorem sleep_misses_no_wakeup_interrupt : ∃ state,
    Steps (step 1 2) boot sleepAndInterrupt state ∧ (state.proc 0).state = .sleeping ∧
    ∃ call, ((state.proc 0).pc = .sleepSched call ∨ (state.proc 0).pc = .sleepResumed call) ∧
      (state.proc 0).chan = some (call.chan 0) ∧
      ∃ after before, state.history = after ++ .released 0 call :: before ∧
        (∀ other, .released 0 other ∉ after) ∧
        ∀ event ∈ after, ¬event.Wakes (call.chan 0) call.lock := by
  have ran := Outcome.eq_next_of_isNext boot
    (show (runSteps (step 1 2) boot sleepAndInterrupt).isNext = true by decide +kernel)
  have run := steps_iff_runSteps.mpr ran
  have sleeping : (((runSteps (step 1 2) boot sleepAndInterrupt).getD boot).proc 0).state =
      .sleeping := by decide +kernel
  exact ⟨_, run, sleeping, sleep_misses_no_wakeup run sleeping⟩

end Xv6.Sched
