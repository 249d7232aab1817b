import Xv6.Sched.Wakeup

/-! # Parents, `exit` and `wait`

`wait_lock` protects `p->parent`. While a thread in `exit` or `wait` holds it, no
other process gets or loses a child, becomes a ZOMBIE or falls asleep in `wait`;
`Known` says what the thread has established under the lock at each place. -/

namespace Xv6.Sched

open State
open Function (update update_self update_of_ne update_eq_self)

/-- The process has been started and has not exited. -/
def Proc.Alive (proc : Proc) : Prop :=
  proc.state = .sleeping ∨ proc.state = .runnable ∨ proc.state = .running

/-- What the thread of `p` has established at a place in the code. -/
def Known (proc : Nat → Proc) (p : Nat) : Pc → Prop
  | .reparent _ next => p ≠ initproc ∧ ∀ q < next, (proc q).parent ≠ some p
  | .wakeup _ _ (.reparent _ child) | .wakeupLocked _ _ (.reparent _ child) =>
    p ≠ initproc ∧ ∀ q < child + 1, (proc q).parent ≠ some p
  | .wakeup chan next (.exit _) | .wakeupLocked chan next (.exit _) =>
    p ≠ initproc ∧ (∀ q, (proc q).parent ≠ some p) ∧
      ∀ r, (proc p).parent = some r → chan = some (.proc r) ∧ (r < next → ¬(proc r).Asleep .wait)
  | .exitLock _ | .exitLocked _ =>
    p ≠ initproc ∧ (∀ q, (proc q).parent ≠ some p) ∧
      ∀ r, (proc p).parent = some r → ¬(proc r).Asleep .wait
  | .wait next _ => ∀ q < next, (proc q).parent = some p → (proc q).state ≠ .zombie
  | .waitLocked slot =>
    (proc slot).parent = some p ∧ ∀ q < slot, (proc q).parent = some p → (proc q).state ≠ .zombie
  | .waitKilled | .waitKilledLocked | .waitSleep | .sleepLocked .wait =>
    ∀ q, (proc q).parent = some p → (proc q).state ≠ .zombie
  | .forkFound slot => (proc slot).parent = none
  | .forkParent slot | .forkParented slot | .forkReady slot | .forkReadyLocked slot =>
    (proc slot).parent = some p
  | _ => True

/-- A CPU that holds `wait_lock` is about to wake the process `r`. -/
def Woken (state : State) (r : Nat) : Prop :=
  ∃ c next, state.spin.owner .wait = some c ∧
    (state.cpu c).ctx.wakes state.proc = some (some (.proc r), next) ∧ next ≤ r

structure Family (slots : Nat) (state : State) : Prop where
  alive : ∀ q r, (state.proc q).parent = some r → (state.proc r).Alive
  parent : ∀ q, q ≠ initproc → (state.proc q).Alive ∨ (state.proc q).state = .zombie →
    (state.proc q).parent ≠ none
  init : (state.proc initproc).Alive
  inside : ∀ q r, (state.proc q).parent = some r → q < slots
  unused : ∀ q, (state.proc q).state = .unused → (state.proc q).parent = none
  known : ∀ p, Known state.proc p (state.proc p).pc
  woken : ∀ r q, (state.proc r).Asleep .wait → (state.proc q).parent = some r →
    (state.proc q).state = .zombie → Woken state r

/-! ## Frames -/

section Frames

variable {slots : Nat} {state after : State} {c p : Nat} {pc : Pc}

/-- What `exit` and `wait` see of a process does not change. -/
structure Proc.Kin (before after : Proc) : Prop where
  parent : after.parent = before.parent
  alive : after.Alive ↔ before.Alive
  zombie : after.state = .zombie ↔ before.state = .zombie
  unused : after.state = .unused → before.state = .unused

theorem Proc.Kin.of_state {before after : Proc} (parent : after.parent = before.parent)
    (state : after.state = before.state) : before.Kin after := by
  constructor
  · exact parent
  · rw [Proc.Alive, Proc.Alive, state]
  · rw [state]
  · rw [state]
    exact id

theorem Proc.Kin.refl (proc : Proc) : proc.Kin proc := .of_state rfl rfl

theorem wakeProc_kin (chan : Option Chan) (proc : Proc) : proc.Kin (wakeProc chan proc) := by
  rw [wakeProc]
  split
  · rename_i asleep
    constructor <;> simp [Proc.Alive, asleep.1]
  · exact Proc.Kin.refl proc

theorem killProc_kin (proc : Proc) : proc.Kin (killProc proc) := by
  by_cases asleep : proc.state = .sleeping
  · constructor <;> simp [killProc, Proc.Alive, asleep]
  · exact .of_state rfl (if_neg asleep)

variable {before : Nat → Proc}

/-- A thread that holds `wait_lock` keeps what it knows as long as its children,
its parent and the sleepers in `wait` do not change. -/
theorem Known.frame {after : Nat → Proc} (known : Known before p pc)
    (child : ∀ q, (after q).parent = some p ↔ (before q).parent = some p)
    (zombie : ∀ q, (after q).parent = some p → (after q).state = .zombie →
      (before q).state = .zombie) (own : (after p).parent = (before p).parent)
    (asleep : ∀ r, (after r).Asleep .wait → (before r).Asleep .wait)
    (found : ∀ slot, pc.child = some slot → (before slot).parent = none →
      (after slot).parent = none) : Known after p pc := by
  have alive : ∀ q, ((before q).parent = some p → (before q).state ≠ .zombie) →
      (after q).parent = some p → (after q).state ≠ .zombie :=
    fun q before isChild dead => before ((child q).mp isChild) (zombie q isChild dead)
  cases pc with
  | reparent status next =>
    exact ⟨known.1, fun q bound isChild => known.2 q bound ((child q).mp isChild)⟩
  | wakeup chan next ret | wakeupLocked chan next ret =>
    cases ret with
    | caller => exact known
    | reparent => exact ⟨known.1, fun q bound isChild => known.2 q bound ((child q).mp isChild)⟩
    | exit =>
      refine ⟨known.1, fun q isChild => known.2.1 q ((child q).mp isChild), fun r isParent => ?_⟩
      rw [own] at isParent
      rcases known.2.2 r isParent with ⟨channel, past⟩
      exact ⟨channel, fun bound nowAsleep => past bound (asleep r nowAsleep)⟩
  | exitLock | exitLocked =>
    refine ⟨known.1, fun q isChild => known.2.1 q ((child q).mp isChild), fun r isParent => ?_⟩
    rw [own] at isParent
    exact fun nowAsleep => known.2.2 r isParent (asleep r nowAsleep)
  | wait => exact fun q bound => alive q (known q bound)
  | waitLocked slot => exact ⟨(child slot).mpr known.1, fun q bound => alive q (known.2 q bound)⟩
  | waitKilled | waitKilledLocked | waitSleep => exact fun q => alive q (known q)
  | sleepLocked call =>
    cases call with
    | other => exact known
    | wait => exact fun q => alive q (known q)
  | forkFound slot => exact found slot rfl known
  | forkParent slot | forkParented slot | forkReady slot | forkReadyLocked slot =>
    exact (child slot).mpr known
  | _ => exact known

/-- A thread that does not hold `wait_lock` only knows about the child that it
is about to start. -/
theorem Known.unlocked {after : Nat → Proc} (known : Known before p pc)
    (notWait : .wait ∉ pc.locks p)
    (child : ∀ slot, pc.child = some slot → (after slot).parent = (before slot).parent) :
    Known after p pc := by
  cases pc with
  | forkFound slot | forkParent slot | forkParented slot | forkReady slot
  | forkReadyLocked slot => exact (child slot rfl).trans known
  | wakeup _ _ ret | wakeupLocked _ _ ret =>
    cases ret <;> first | exact known | simp [Pc.locks, WakeupReturn.locks] at notWait
  | sleepLocked call =>
    cases call <;> first | exact known | simp [Pc.locks, SleepCall.lock] at notWait
  | reparent | exitLock | exitLocked | wait | waitLocked | waitKilled | waitKilledLocked
  | waitSleep => simp [Pc.locks] at notWait
  | _ => exact known

theorem Known.kin {after : Nat → Proc} (known : Known before p pc)
    (kin : ∀ r, (before r).Kin (after r))
    (asleep : ∀ r, (after r).Asleep .wait → (before r).Asleep .wait) : Known after p pc := by
  apply known.frame _ _ (kin p).parent asleep
  · intro slot _ noParent
    rw [(kin slot).parent]
    exact noParent
  · intro q
    rw [(kin q).parent]
  · exact fun q _ => (kin q).zombie.mp

variable {r : Nat}

theorem Consistent.wait_holder (consistent : Consistent slots state)
    (member : .wait ∈ (state.proc r).pc.locks r) :
    ∃ d, (state.cpu d).ctx = .thread r ∧ state.spin.owner .wait = some d := by
  have somewhere : ∃ d, (state.cpu d).ctx = .thread r := by
    by_contra nowhere
    exact (consistent.parked r (not_exists.mp nowhere)).notWait r member
  rcases somewhere with ⟨d, there⟩
  have awake : (state.proc r).yielding = none := by
    by_contra interrupted
    exact absurd (consistent.interrupted r interrupted .wait member) nofun
  refine ⟨d, there, ?_⟩
  rw [consistent.owner d _ rfl, there, Ctx.locks, Proc.locks, awake]
  exact member

theorem Consistent.not_under_wait (consistent : Consistent slots state)
    (here : (state.cpu c).ctx = .thread p)
    (lock : state.spin.owner .wait = none ∨ state.spin.owner .wait = some c) (different : r ≠ p) :
    .wait ∉ (state.proc r).pc.locks r := by
  intro member
  rcases consistent.wait_holder member with ⟨d, there, holds⟩
  rcases lock with free | mine
  · rw [free] at holds
    cases holds
  · rw [mine] at holds
    cases holds
    rw [here] at there
    exact different (Ctx.thread.inj there).symm

theorem Family.frame (family : Family slots state)
    (kin : ∀ r, (state.proc r).Kin (after.proc r))
    (known : ∀ r, Known after.proc r (after.proc r).pc)
    (woken : ∀ r q, (after.proc r).Asleep .wait → (state.proc q).parent = some r →
      (state.proc q).state = .zombie → Woken after r) :
    Family slots after where
  alive q r isParent := by
    rw [(kin q).parent] at isParent
    exact (kin r).alive.mpr (family.alive q r isParent)
  parent q notInit present := by
    rw [(kin q).parent]
    rw [(kin q).alive, (kin q).zombie] at present
    exact family.parent q notInit present
  init := (kin initproc).alive.mpr family.init
  inside q r isParent := by
    rw [(kin q).parent] at isParent
    exact family.inside q r isParent
  unused q isUnused := by
    rw [(kin q).parent]
    exact family.unused q ((kin q).unused isUnused)
  known := known
  woken r q nowAsleep isParent dead := by
    rw [(kin q).parent] at isParent
    rw [(kin q).zombie] at dead
    exact woken r q nowAsleep isParent dead

variable {proc : Proc}

theorem Touched.place (touched : Touched state c r proc) :
    proc.pc = (state.proc r).pc ∨ proc.pc = .forkret := by
  rcases touched with same | ⟨_, _, _, _, ⟨pc, _⟩ | ⟨pc, _⟩⟩
  · exact .inl same.pc
  · exact .inl pc
  · exact .inr pc

/-- The places of a process that is asleep in `wait`. -/
def Pc.inWaitSleep : Pc → Bool
  | .sleepReleased .wait | .sleepSched .wait | .sleepResumed .wait => true
  | _ => false

theorem Proc.not_asleep (elsewhere : proc.pc.inWaitSleep = false) : ¬proc.Asleep .wait := by
  intro asleep
  rcases asleep with ⟨_, pc⟩ | ⟨_, pc | pc⟩ <;> rw [pc] at elsewhere <;> cases elsewhere

theorem kin_update (procs : after.proc = update state.proc p proc) (kin : (state.proc p).Kin proc)
    (r : Nat) : (state.proc r).Kin (after.proc r) := by
  rw [procs]
  by_cases same : r = p
  · rw [same, update_self]
    exact kin
  · rw [update_of_ne same]
    exact Proc.Kin.refl _

variable {other : Proc}

theorem kin_slot {slot q : Nat}
    (procs : after.proc = update (update state.proc slot other) p { state.proc p with pc := pc })
    (notSlot : q ≠ slot) : (state.proc q).Kin (after.proc q) := by
  by_cases same : q = p
  · rw [procs, same, update_self]
    exact .of_state rfl rfl
  · rw [procs, update_of_ne same, update_of_ne notSlot]
    exact Proc.Kin.refl _

section Steps

variable (family : Family slots state) (consistent : Consistent slots state)
  (here : (state.cpu c).ctx = .thread p) (effect : Effect slots state c p after)

include effect

/-- Nobody but the thread itself falls asleep in its step. -/
theorem Effect.asleep (own : (after.proc p).Asleep .wait → (state.proc p).Asleep .wait)
    (nowAsleep : (after.proc r).Asleep .wait) : (state.proc r).Asleep .wait := by
  by_cases same : r = p
  · subst same
    exact own nowAsleep
  · exact (effect.rest r same).calmer.asleep nowAsleep

include consistent here

theorem Effect.woken
    (own : ∀ next, state.spin.owner .wait = some c →
      (state.proc p).wakes = some (some (.proc r), next) → next ≤ r → Woken after r)
    (woken : Woken state r) : Woken after r := by
  rcases woken with ⟨d, next, holds, scan, bound⟩
  by_cases same : d = c
  · subst same
    rw [here] at scan
    exact own next holds scan bound
  · refine ⟨d, next, (effect.locking.others _ d same).mpr holds, ?_, bound⟩
    rw [effect.cpu, Ctx.wakes_congr fun r => effect.place consistent here d r same]
    exact scan

/-- A thread that is in no `wakeup` has nobody to wake. -/
theorem Effect.woken_of_none (notWakeup : (state.proc p).wakes = none) (woken : Woken state r) :
    Woken after r := by
  apply effect.woken consistent here _ woken
  intro next _ scan
  rw [notWakeup] at scan
  cases scan

include family

/-- A step of the thread of `p` that changes neither parents nor who has
exited. -/
theorem Family.quiet
    (kin : ∀ r, (state.proc r).Kin (after.proc r))
    (asleep : (after.proc p).Asleep .wait → (state.proc p).Asleep .wait)
    (known : Known after.proc p (after.proc p).pc)
    (woken : ∀ r next, (after.proc r).Asleep .wait → state.spin.owner .wait = some c →
      (state.proc p).wakes = some (some (.proc r), next) → next ≤ r → Woken after r) :
    Family slots after := by
  apply family.frame kin
  · intro r
    by_cases same : r = p
    · subst same
      exact known
    · rcases (effect.rest r same).place with pc | pc
      · rw [pc]
        exact (family.known r).kin kin fun _ => effect.asleep asleep
      · rw [pc]
        exact trivial
  · intro r q nowAsleep isParent dead
    exact effect.woken consistent here (fun next => woken r next nowAsleep)
      (family.woken r q (effect.asleep asleep nowAsleep) isParent dead)

theorem Family.still (kin : ∀ r, (state.proc r).Kin (after.proc r))
    (place : (after.proc p).pc = pc) (notAsleep : pc.inWaitSleep = false)
    (notWakeup : (state.proc p).wakes = none) (known : Known after.proc p pc) :
    Family slots after := by
  rw [← place] at notAsleep known
  apply family.quiet consistent here effect kin (absurd · (Proc.not_asleep notAsleep)) known
  intro r next _ _ scan
  rw [notWakeup] at scan
  cases scan

theorem Family.turn (procs : after.proc = update state.proc p proc) (kin : (state.proc p).Kin proc)
    (asleep : proc.pc.inWaitSleep = false ∨ (state.proc p).Asleep .wait)
    (known : Known state.proc p proc.pc)
    (woken : ∀ r next, (state.proc r).Asleep .wait → state.spin.owner .wait = some c →
      (state.proc p).wakes = some (some (.proc r), next) → next ≤ r → Woken after r) :
    Family slots after := by
  have own : after.proc p = proc := by rw [procs, update_self]
  have asleepOwn : (after.proc p).Asleep .wait → (state.proc p).Asleep .wait := by
    rw [own]
    exact fun nowAsleep => asleep.resolve_left fun elsewhere =>
      Proc.not_asleep elsewhere nowAsleep
  apply family.quiet consistent here effect (kin_update procs kin) asleepOwn
  · rw [own]
    exact known.kin (kin_update procs kin) fun _ => effect.asleep asleepOwn
  · exact fun r next nowAsleep => woken r next (effect.asleep asleepOwn nowAsleep)

theorem Family.goto (procs : after.proc = update state.proc p proc) (kin : (state.proc p).Kin proc)
    (notAsleep : proc.pc.inWaitSleep = false) (notWakeup : (state.proc p).wakes = none)
    (known : Known state.proc p proc.pc) : Family slots after := by
  apply family.turn consistent here effect procs kin (.inl notAsleep) known
  intro r next _ _ scan
  rw [notWakeup] at scan
  cases scan

/-! ## The steps that change parents or exit -/

theorem Family.known_locked (lock : state.spin.owner .wait = none ∨ state.spin.owner .wait = some c)
    (child : ∀ r slot, r ≠ p → (state.proc r).pc.child = some slot →
      (after.proc slot).parent = (state.proc slot).parent) (different : r ≠ p) :
    Known after.proc r (after.proc r).pc := by
  rcases (effect.rest r different).place with pc | pc
  · rw [pc]
    exact (family.known r).unlocked (consistent.not_under_wait here lock different)
      fun slot => child r slot different
  · rw [pc]
    exact trivial

omit here in
/-- What the other threads know when this one, outside `wait_lock`, works on its
own child in `fork`. -/
theorem Family.known_child (isChild : (state.proc p).pc.child = some slot)
    (parent : (state.proc slot).parent = none ∨ (state.proc slot).parent = some p)
    (notSelf : slot ≠ p)
    (procs : after.proc = update (update state.proc slot other) p { state.proc p with pc := pc })
    (parentAfter : other.parent = none ∨ other.parent = some p) (notZombie : other.state ≠ .zombie)
    (notAsleep : pc.inWaitSleep = false) (different : r ≠ p) :
    Known after.proc r (after.proc r).pc := by
  have self : after.proc p = { state.proc p with pc := pc } := by
    rw [procs, update_self]
  have there : after.proc slot = other := by
    rw [procs, update_of_ne notSelf, update_self]
  have kin : ∀ {q}, q ≠ slot → (state.proc q).Kin (after.proc q) := kin_slot procs
  have used := (consistent.child p slot isChild).2
  have notOther : ∀ found, (state.proc r).pc.child = some found → found ≠ slot := by
    intro found other equal
    exact different (consistent.onlyChild r p slot (equal ▸ other) isChild)
  have unrelated : ∀ {option : Option Nat}, option = none ∨ option = some p → option ≠ some r := by
    intro option related equal
    rcases related with none | mine
    · rw [none] at equal
      cases equal
    · rw [mine] at equal
      exact different (Option.some.inj equal).symm
  rcases (effect.rest r different).place with place | place
  · rw [place]
    by_cases member : .wait ∈ (state.proc r).pc.locks r
    · -- a thread under `wait_lock` is running, so it is not the new child
      rcases consistent.wait_holder member with ⟨d, running, _⟩
      have ne : r ≠ slot := by
        intro equal
        rw [← equal, consistent.thread d r running] at used
        exact Proc.threadState_ne_used _ used
      apply (family.known r).frame
      · intro q
        by_cases same : q = slot
        · rw [same, there]
          exact iff_of_false (unrelated parentAfter) (unrelated parent)
        · rw [(kin same).parent]
      · intro q _ dead
        by_cases same : q = slot
        · rw [same, there] at dead
          exact absurd dead notZombie
        · exact (kin same).zombie.mp dead
      · exact (kin ne).parent
      · refine fun _ => effect.asleep fun asleep => absurd asleep (Proc.not_asleep ?_)
        rw [self]
        exact notAsleep
      · intro found isFound noParent
        exact (kin (notOther found isFound)).parent.trans noParent
    · exact (family.known r).unlocked member fun found isFound =>
        (kin (notOther found isFound)).parent
  · rw [place]
    exact trivial

omit family consistent here effect in
theorem Known.parent_child {proc : Nat → Proc} (known : Known proc p pc) {slot : Nat}
    (isChild : pc.child = some slot) :
    (proc slot).parent = none ∨ (proc slot).parent = some p := by
  cases pc <;> cases isChild
  case forkFound => exact .inl known
  all_goals exact .inr known

/-- A step of the thread of `p` that changes one other process, which is no
ZOMBIE afterwards and has `p` as its parent if it has one. -/
theorem Family.slot {slot : Nat} (different : slot ≠ p)
    (procs : after.proc = update (update state.proc slot other) p { state.proc p with pc := pc })
    (running : (state.proc p).state = .running) (bound : slot < slots)
    (alive : (state.proc slot).Alive → other.Alive)
    (parent : other.parent = some p ∨ (other.parent = none ∧ other.state = .unused))
    (started : other.state = .unused → other.parent = none) (notZombie : other.state ≠ .zombie)
    (notAsleep : pc.inWaitSleep = false) (notWakeup : (state.proc p).wakes = none)
    (known : ∀ r, r ≠ p → Known after.proc r (after.proc r).pc) (own : Known after.proc p pc) :
    Family slots after := by
  have self : after.proc p = { state.proc p with pc := pc } := by
    rw [procs, update_self]
  have there : after.proc slot = other := by
    rw [procs, update_of_ne different, update_self]
  have kin : ∀ {q}, q ≠ slot → (state.proc q).Kin (after.proc q) := kin_slot procs
  have stays : ∀ r, (state.proc r).Alive → (after.proc r).Alive := by
    intro r before
    by_cases same : r = slot
    · rw [same] at before
      rw [same, there]
      exact alive before
    · exact (kin same).alive.mpr before
  have asleep : ∀ r, (after.proc r).Asleep .wait → (state.proc r).Asleep .wait := by
    refine fun _ => effect.asleep fun asleep => absurd asleep (Proc.not_asleep ?_)
    rw [self]
    exact notAsleep
  constructor
  · intro q r isParent
    by_cases same : q = slot
    · rw [same, there] at isParent
      rcases parent with mine | ⟨none, _⟩
      · rw [mine] at isParent
        cases isParent
        exact stays p (.inr (.inr running))
      · rw [none] at isParent
        cases isParent
    · rw [(kin same).parent] at isParent
      exact stays r (family.alive q r isParent)
  · intro q notInit present
    by_cases same : q = slot
    · rw [same, there] at present
      rw [same, there]
      rcases parent with mine | ⟨_, isUnused⟩
      · rw [mine]
        exact nofun
      · rw [Proc.Alive, isUnused] at present
        simp at present
    · rw [(kin same).parent]
      rw [(kin same).alive, (kin same).zombie] at present
      exact family.parent q notInit present
  · exact stays _ family.init
  · intro q r isParent
    by_cases same : q = slot
    · rw [same]
      exact bound
    · rw [(kin same).parent] at isParent
      exact family.inside q r isParent
  · intro q isUnused
    by_cases same : q = slot
    · rw [same, there] at isUnused
      rw [same, there]
      exact started isUnused
    · rw [(kin same).parent]
      exact family.unused q ((kin same).unused isUnused)
  · intro r
    by_cases same : r = p
    · rw [same, self]
      exact own
    · exact known r same
  · intro r q nowAsleep isParent dead
    have notSlot : q ≠ slot := by
      intro same
      rw [same, there] at dead
      exact notZombie dead
    rw [(kin notSlot).parent] at isParent
    rw [(kin notSlot).zombie] at dead
    exact effect.woken_of_none consistent here notWakeup
      (family.woken r q (asleep r nowAsleep) isParent dead)

/-- `fork` works on the child that is not started yet. -/
theorem Family.child {slot : Nat} (isChild : (state.proc p).pc.child = some slot)
    (procs : after.proc = ((state.setProc slot other).setPc p pc).proc)
    (running : (state.proc p).state = .running)
    (parent : other.parent = some p ∧ other.state ≠ .unused ∨
      other.parent = none ∧ other.state = .unused) (notZombie : other.state ≠ .zombie)
    (notAsleep : pc.inWaitSleep = false) (notWakeup : (state.proc p).wakes = none)
    (own : Known after.proc p pc) : Family slots after := by
  rcases consistent.child p slot isChild with ⟨bound, used⟩
  have different : slot ≠ p := by
    rintro rfl
    cases running.symm.trans used
  have related : other.parent = none ∨ other.parent = some p :=
    parent.symm.imp And.left And.left
  rw [setSlot_procs _ different] at procs
  apply family.slot consistent here effect different procs running bound _ _ _ notZombie notAsleep
    notWakeup _ own
  · simp [Proc.Alive, used]
  · exact parent.imp_left And.left
  · intro isUnused
    rcases parent with ⟨_, started⟩ | ⟨none, _⟩
    · exact absurd isUnused started
    · exact none
  · exact fun r => family.known_child consistent effect isChild
      ((family.known p).parent_child isChild) different procs related notZombie notAsleep

omit family consistent here effect in
theorem setSlot_field {α : Type} (field : Proc → α)
    (placeless : ∀ proc pc, field { proc with pc := pc } = field proc) (state : State)
    (slot p q : Nat) (other : Proc) (pc : Pc) :
    field (((state.setProc slot other).setPc p pc).proc q) =
      if q = slot then field other else field (state.proc q) := by
  have moved : field (((state.setProc slot other).setPc p pc).proc q) =
      field ((state.setProc slot other).proc q) := by
    by_cases own : q = p
    · rw [own, setPc_proc_self, placeless]
    · rw [setPc_proc_of_ne _ _ own]
  rw [moved]
  split
  · rename_i same
    rw [same, setProc_proc_self]
  · rename_i different
    rw [setProc_proc_of_ne _ _ different]

theorem Family.reparentChild {status : Int} {next : Nat}
    (afterEq : after =
      (state.setProc next { state.proc next with parent := some initproc }).setPc p
        (.wakeup (some (.proc initproc)) 0 (.reparent status next)))
    (holds : state.spin.owner .wait = some c) (awake : (state.proc p).yielding = none)
    (atPc : (state.proc p).pc = .reparent status next) (inside : next < slots)
    (child : (state.proc next).parent = some p) : Family slots after := by
  have stateOf : ∀ q, (after.proc q).state = (state.proc q).state := by
    intro q
    rw [afterEq, setSlot_field Proc.state fun _ _ => rfl]
    split
    · rename_i same
      rw [same]
    · rfl
  have parentOf : ∀ q, (after.proc q).parent =
      if q = next then some initproc else (state.proc q).parent := by
    intro q
    rw [afterEq]
    exact setSlot_field Proc.parent (fun _ _ => rfl) ..
  have place : (after.proc p).pc = .wakeup (some (.proc initproc)) 0 (.reparent status next) := by
    rw [afterEq, setPc_proc_self]
  have alive : ∀ r, (after.proc r).Alive ↔ (state.proc r).Alive := by
    intro r
    rw [Proc.Alive, Proc.Alive, stateOf]
  have known := family.known p
  rw [atPc] at known
  constructor
  · intro q r isParent
    rw [parentOf] at isParent
    rw [alive]
    split at isParent
    · cases isParent
      exact family.init
    · exact family.alive q r isParent
  · intro q notInit present
    rw [alive, stateOf] at present
    rw [parentOf]
    split
    · exact nofun
    · exact family.parent q notInit present
  · exact (alive _).mpr family.init
  · intro q r isParent
    rw [parentOf] at isParent
    split at isParent
    · rename_i same
      rw [same]
      exact inside
    · exact family.inside q r isParent
  · intro q isUnused
    rw [stateOf] at isUnused
    have before := family.unused q isUnused
    rw [parentOf]
    split
    · rename_i same
      rw [same, child] at before
      cases before
    · exact before
  · intro r
    by_cases same : r = p
    · rw [same, place]
      refine ⟨known.1, fun q bound isParent => ?_⟩
      rw [parentOf] at isParent
      split at isParent
      · exact known.1 (Option.some.inj isParent).symm
      · exact known.2 q (by omega) isParent
    · apply family.known_locked consistent here effect (.inr holds) _ same
      intro other slot different isChild
      rw [parentOf, if_neg]
      intro equal
      rcases (family.known other).parent_child isChild with none | mine
      · rw [equal, child] at none
        cases none
      · rw [equal, child] at mine
        exact different (Option.some.inj mine).symm
  · intro r q nowAsleep isParent dead
    rw [parentOf] at isParent
    rw [stateOf] at dead
    split at isParent
    · cases isParent
      refine ⟨c, 0, by rwa [afterEq], ?_, Nat.zero_le _⟩
      rw [effect.cpu, here, Ctx.wakes, Proc.wakes, if_pos, place]
      · rfl
      · rw [afterEq]
        apply setSlot_yielding _ _ awake
        exact .inl rfl
    · have asleep : (state.proc r).Asleep .wait := by
        refine effect.asleep (fun asleep => absurd asleep (Proc.not_asleep ?_)) nowAsleep
        rw [place]
        rfl
      refine effect.woken_of_none consistent here ?_ (family.woken r q asleep isParent dead)
      rw [Proc.wakes, if_pos awake, atPc]
      rfl

theorem Family.exitState {status : Int}
    (procs : after.proc = update state.proc p
      { state.proc p with xstate := status, state := .zombie, pc := .exitSched })
    (holds : state.spin.owner .wait = some c) (notWakeup : (state.proc p).wakes = none)
    (atPc : (state.proc p).pc = .exitLocked status) (running : (state.proc p).state = .running) :
    Family slots after := by
  have self : after.proc p =
      { state.proc p with xstate := status, state := .zombie, pc := .exitSched } := by
    rw [procs, update_self]
  have rest : ∀ {q}, q ≠ p → after.proc q = state.proc q := by
    intro q different
    rw [procs, update_of_ne different]
  have parentOf : ∀ q, (after.proc q).parent = (state.proc q).parent := by
    intro q
    by_cases same : q = p
    · rw [same, self]
    · rw [rest same]
  have known := family.known p
  rw [atPc] at known
  constructor
  · intro q r isParent
    rw [parentOf] at isParent
    have different : r ≠ p := by
      intro same
      rw [same] at isParent
      exact known.2.1 q isParent
    rw [rest different]
    exact family.alive q r isParent
  · intro q notInit present
    rw [parentOf]
    by_cases same : q = p
    · rw [same] at notInit ⊢
      exact family.parent p notInit (.inl (.inr (.inr running)))
    · rw [rest same] at present
      exact family.parent q notInit present
  · rw [rest known.1.symm]
    exact family.init
  · intro q r isParent
    rw [parentOf] at isParent
    exact family.inside q r isParent
  · intro q isUnused
    rw [parentOf]
    by_cases same : q = p
    · rw [same, self] at isUnused
      cases isUnused
    · rw [rest same] at isUnused
      exact family.unused q isUnused
  · intro r
    by_cases same : r = p
    · rw [same, self]
      exact trivial
    · exact family.known_locked consistent here effect (.inr holds)
        (fun _ slot _ _ => parentOf slot) same
  · intro r q nowAsleep isParent dead
    have asleep : (state.proc r).Asleep .wait := by
      refine effect.asleep (fun asleep => absurd asleep (Proc.not_asleep ?_)) nowAsleep
      rw [self]
      rfl
    rw [parentOf] at isParent
    by_cases same : q = p
    · rw [same] at isParent
      exact absurd asleep (known.2.2 r isParent)
    · rw [rest same] at dead
      exact effect.woken_of_none consistent here notWakeup (family.woken r q asleep isParent dead)

theorem Family.sleepRelease
    (procs : after.proc = update state.proc p { state.proc p with pc := .sleepReleased .wait })
    (holds : state.spin.owner .wait = some c) (notWakeup : (state.proc p).wakes = none)
    (atPc : (state.proc p).pc = .sleepLocked .wait) : Family slots after := by
  have kin := kin_update procs (.of_state rfl rfl)
  have known := family.known p
  rw [atPc] at known
  apply family.frame kin
  · intro r
    by_cases same : r = p
    · rw [same, procs, update_self]
      exact trivial
    · exact family.known_locked consistent here effect (.inr holds)
        (fun _ slot _ _ => (kin slot).parent) same
  · intro r q nowAsleep isParent dead
    by_cases same : r = p
    · rw [same] at isParent
      exact absurd dead (known q isParent)
    · rw [procs, update_of_ne same] at nowAsleep
      exact effect.woken_of_none consistent here notWakeup
        (family.woken r q nowAsleep isParent dead)

end Steps

variable {chan : Option Chan} {ret : WakeupReturn}

theorem Known.advance {proc : Nat → Proc} (known : Known proc p (.wakeup chan next ret))
    (past : ∀ r, chan = some (.proc r) → r < slot → r < next ∨ ¬(proc r).Asleep .wait) :
    Known proc p (.wakeup chan slot ret) := by
  cases ret with
  | caller => exact trivial
  | reparent => exact known
  | exit =>
    refine ⟨known.1, known.2.1, fun r isParent => ?_⟩
    rcases known.2.2 r isParent with ⟨channel, before⟩
    refine ⟨channel, fun bound => ?_⟩
    rcases past r channel bound with earlier | awake
    · exact before earlier
    · exact awake

theorem known_wakeupLocked {proc : Nat → Proc} :
    Known proc p (.wakeupLocked chan slot ret) ↔ Known proc p (.wakeup chan slot ret) := by
  cases ret <;> exact Iff.rfl

theorem Known.wakeupReturn {proc : Nat → Proc} {chan : Option Chan} {next : Nat}
    {ret : WakeupReturn} (known : Known proc p (.wakeup chan next ret))
    (past : ∀ r, (proc r).Asleep .wait → r < next) : Known proc p ret.pc := by
  cases ret with
  | caller => exact trivial
  | reparent => exact known
  | exit =>
    exact ⟨known.1, known.2.1, fun r isParent asleep =>
      (known.2.2 r isParent).2 (past r asleep) asleep⟩

theorem setSlot_kin (kin : (state.proc slot).Kin other) (r : Nat) :
    (state.proc r).Kin (((state.setProc slot other).setPc p pc).proc r) := by
  have turned : ((state.setProc slot other).proc r).Kin
      (((state.setProc slot other).setPc p pc).proc r) :=
    kin_update (p := p) (by rfl) (.of_state (by rfl) (by rfl)) r
  have changed : (state.proc r).Kin ((state.setProc slot other).proc r) :=
    kin_update rfl kin r
  exact ⟨turned.parent.trans changed.parent, turned.alive.trans changed.alive,
    turned.zombie.trans changed.zombie, fun isUnused => changed.unused (turned.unused isUnused)⟩

theorem Family.wakeupSlot (family : Family slots state) (consistent : Consistent slots state)
    (noLoss : NoLoss state) (here : (state.cpu c).ctx = .thread p)
    (effect : Effect slots state c p after) {chan : Option Chan} {slot : Nat} {ret : WakeupReturn}
    (afterEq : after = ((state.drop c (.proc slot)).setProc slot
      (wakeProc chan (state.proc slot))).setPc p (.wakeup chan (slot + 1) ret))
    (holds : state.spin.owner (.proc slot) = some c) (awake : (state.proc p).yielding = none)
    (atPc : (state.proc p).pc = .wakeupLocked chan slot ret) : Family slots after := by
  have kin : ∀ r, (state.proc r).Kin (after.proc r) := by
    rw [afterEq]
    exact setSlot_kin (wakeProc_kin ..)
  have place : (after.proc p).pc = .wakeup chan (slot + 1) ret := by
    rw [afterEq, setPc_proc_self]
  have asleepOwn : ¬(after.proc p).Asleep .wait := by
    apply Proc.not_asleep
    rw [place]
    rfl
  have asleepAll : ∀ r, (after.proc r).Asleep .wait → (state.proc r).Asleep .wait :=
    fun _ => effect.asleep (absurd · asleepOwn)
  have passed : chan = some (.proc slot) → ¬(after.proc slot).Asleep .wait := by
    intro channel nowAsleep
    by_cases same : slot = p
    · rw [same] at nowAsleep
      exact asleepOwn nowAsleep
    · have there : after.proc slot = wakeProc chan (state.proc slot) := by
        rw [afterEq, setPc_proc_of_ne _ _ same, setProc_proc_self]
      have before := asleepAll slot nowAsleep
      rw [there] at nowAsleep
      refine noLoss.awakened consistent holds ?_ channel before nowAsleep
      rw [here]
      exact fun equal => same (Ctx.thread.inj equal).symm
  apply family.quiet consistent here effect kin (absurd · asleepOwn)
  · have known := family.known p
    rw [atPc, known_wakeupLocked] at known
    rw [place]
    apply (known.kin kin asleepAll).advance
    intro r channel bound
    by_cases earlier : r < slot
    · exact .inl earlier
    · have same : r = slot := by omega
      rw [same] at channel ⊢
      exact .inr (passed channel)
  · intro r next nowAsleep held scan bound
    rw [Proc.wakes, if_pos awake, atPc, Pc.wakes, Option.some.injEq, Prod.mk.injEq] at scan
    have different : r ≠ slot := by
      intro same
      rw [same] at scan nowAsleep
      exact passed scan.1 nowAsleep
    have awakeAfter : (after.proc p).yielding = none := by
      rw [afterEq]
      exact setSlot_yielding _ (.inl (wakeProc_yielding ..)) awake
    refine ⟨c, slot + 1, ?_, ?_, by omega⟩
    · rw [afterEq]
      exact Spinlocks.dropped_owner_iff.mpr ⟨held, by simp⟩
    rw [effect.cpu, here, Ctx.wakes, Proc.wakes, if_pos awakeAfter, place, Pc.wakes, scan.1]

theorem Moves.family (moves : Moves slots state c p pc after)
    (consistent : Consistent slots state) (noLoss : NoLoss state) (family : Family slots state)
    (here : (state.cpu c).ctx = .thread p) (awake : (state.proc p).yielding = none)
    (atPc : (state.proc p).pc = pc) : Family slots after := by
  have effect := moves.effect consistent here awake atPc
  have self : (state.proc p).state = pc.state := by
    rw [consistent.thread c p here, Proc.threadState, awake, atPc]
  have known : Known state.proc p pc := atPc ▸ family.known p
  have wakes : (state.proc p).wakes = pc.wakes := by rw [Proc.wakes, if_pos awake, atPc]
  have goto : ∀ {next : Pc}, after.proc = (state.setPc p next).proc → next.inWaitSleep = false →
      pc.wakes = none → Known state.proc p next → Family slots after :=
    fun procs notAsleep none => family.goto consistent here effect procs (.of_state rfl rfl)
      notAsleep (wakes.trans none)
  have notSelf : ∀ {slot}, (state.proc slot).state ≠ pc.state → slot ≠ p := by
    intro slot ne equal
    exact ne (equal ▸ self)
  have owner : .wait ∈ pc.locks p → state.spin.owner .wait = some c := by
    intro member
    rw [consistent.owner c _ rfl, here, Ctx.locks, Proc.locks, awake, atPc]
    exact member
  cases moves with
  | acquire | release =>
    exact family.goto consistent here effect (update_eq_self p state.proc).symm
      (Proc.Kin.refl _) (by rw [atPc]; rfl) wakes (family.known p)
  | callSleep | callWakeup | callKill | callFork | forkret | killLock | killNone | killNext
  | forkLock | forkNone | forkNext | waitNoKids | waitFail | waitReturn =>
    exact goto rfl rfl rfl trivial
  | callExit notInit =>
    exact goto rfl rfl rfl
      ⟨notInit, fun _ equal => by cases equal⟩
  | callWait =>
    exact goto rfl rfl rfl
      fun _ equal => by cases equal
  | @sleepRelease call holds =>
    cases call with
    | other =>
      exact goto rfl rfl rfl trivial
    | wait => exact family.sleepRelease consistent here effect rfl holds wakes atPc
  | @sleepState call =>
    have kin : (state.proc p).Kin { state.proc p with
        chan := some (call.chan p), state := .sleeping, pc := .sleepSched call } := by
      constructor <;> simp [Proc.Alive, self, Pc.state]
    cases call with
    | other => exact family.goto consistent here effect rfl kin rfl wakes trivial
    | wait =>
      refine family.turn consistent here effect rfl kin (.inr (.inl ⟨self, atPc⟩)) trivial ?_
      intro _ _ _ _ scan
      rw [wakes] at scan
      cases scan
  | sleepResume =>
    exact family.goto consistent here effect rfl (.of_state rfl rfl) rfl wakes trivial
  | @sleepReturn call =>
    cases call with
    | other =>
      exact goto rfl rfl rfl trivial
    | wait =>
      exact goto rfl rfl rfl
        fun _ equal => by cases equal
  | @wakeupSelf chan ret =>
    have notSelf : ∀ r, (state.proc r).Asleep .wait → r ≠ p := by
      rintro r asleep rfl
      exact Proc.not_asleep (by rw [atPc]; rfl) asleep
    refine family.turn consistent here effect rfl (.of_state rfl rfl) (.inl rfl)
      (known.advance fun r _ bound => ?_) ?_
    · by_cases earlier : r < p
      · exact .inl earlier
      · exact .inr fun asleep => notSelf r asleep (by omega)
    · intro r next asleep holds scan bound
      rw [wakes, Pc.wakes, Option.some.injEq, Prod.mk.injEq] at scan
      have different := notSelf r asleep
      refine ⟨c, p + 1, holds, ?_, by omega⟩
      rw [effect.cpu, here, Ctx.wakes, Proc.wakes, if_pos (by simpa using awake),
        setPc_proc_self, Pc.wakes, scan.1]
  | @wakeupLock chan next ret inside notSelf available =>
    refine family.turn consistent here effect rfl (.of_state rfl rfl) (.inl rfl)
      (known_wakeupLocked.mpr known) ?_
    intro r slot _ holds scan bound
    rw [wakes, Pc.wakes, Option.some.injEq, Prod.mk.injEq] at scan
    refine ⟨c, next, (Spinlocks.taken_owner_iff available).mpr (.inl holds), ?_, by omega⟩
    rw [effect.cpu, here, Ctx.wakes, Proc.wakes, if_pos (by simpa using awake),
      setPc_proc_self, Pc.wakes, scan.1]
  | @wakeupReturn chan next ret outside =>
    refine family.turn consistent here effect rfl (.of_state rfl rfl) (.inl ?_)
      (known.wakeupReturn fun r asleep => ?_) ?_
    · cases ret <;> rfl
    · have bound := consistent.asleep_lt asleep
      omega
    · intro r slot asleep _ scan bound
      rw [wakes, Pc.wakes, Option.some.injEq, Prod.mk.injEq] at scan
      have inside := consistent.asleep_lt asleep
      omega
  | @wakeupSlot chan slot ret holds =>
    exact family.wakeupSlot consistent noLoss here effect rfl holds awake atPc
  | @killFound slot holds =>
    exact family.still consistent here effect (setSlot_kin (killProc_kin _))
      (congrArg Proc.pc (setPc_proc_self ..)) rfl wakes trivial
  | reparentChild inside child =>
    exact family.reparentChild consistent here effect rfl (owner (by simp [Pc.locks])) awake
      atPc inside child
  | @reparentOther status next inside notChild =>
    refine goto rfl rfl rfl
      ⟨known.1, fun q bound isParent => ?_⟩
    by_cases same : q = next
    · exact notChild (same ▸ isParent)
    · exact known.2 q (by omega) isParent
  | @reparented status next outside =>
    refine goto rfl rfl rfl
      ⟨known.1, fun q isParent => ?_, fun r isParent => ?_⟩
    · have bound := family.inside q p isParent
      exact known.2 q (by omega) isParent
    · rw [isParent]
      exact ⟨rfl, fun impossible => absurd impossible (Nat.not_lt_zero _)⟩
  | exitLock | forkParented | forkReady | waitKilled | waitSleep =>
    exact goto rfl rfl rfl known
  | exitState holds => exact family.exitState consistent here effect rfl holds wakes atPc self
  | @forkAlloc slot unused =>
    have kin : (state.proc slot).Kin (allocproc state.nextpid (state.proc slot)) := by
      constructor <;> simp [Proc.Alive, unused, allocproc]
    exact family.still consistent here effect (setSlot_kin kin)
      (congrArg Proc.pc (setPc_proc_self ..)) rfl wakes
      ((setSlot_kin kin slot).parent.trans (family.unused slot unused))
  | @forkRelease slot holds =>
    have isChild : (state.proc p).pc.child = some slot := by rw [atPc]; rfl
    have used := (consistent.child p slot isChild).2
    refine family.child consistent here effect isChild rfl self (.inl ⟨rfl, ?_⟩) ?_ rfl wakes ?_
    · simp [used]
    · simp [used]
    · exact setSlot_field Proc.parent (fun _ _ => rfl) _ slot p slot _ _ |>.trans (if_pos rfl)
  | @forkFail slot holds =>
    exact family.child consistent here effect (by rw [atPc]; rfl) rfl self (.inr ⟨rfl, rfl⟩)
      (fun equal => by cases equal) rfl wakes trivial
  | @forkParent slot available =>
    have kin : (state.proc slot).Kin { state.proc slot with parent := some p } :=
      .of_state known.symm rfl
    exact family.still consistent here effect (setSlot_kin kin)
      (congrArg Proc.pc (setPc_proc_self ..)) rfl wakes ((setSlot_kin kin slot).parent.trans known)
  | @forkRunnable slot holds =>
    exact family.child consistent here effect (by rw [atPc]; rfl) rfl self
      (.inl ⟨known, fun equal => by cases equal⟩) (fun equal => by cases equal) rfl wakes trivial
  | waitLock inside child =>
    exact goto rfl rfl rfl ⟨child, known⟩
  | @waitOther next havekids inside notChild =>
    refine goto rfl rfl rfl
      fun q bound isParent => ?_
    by_cases same : q = next
    · exact absurd (same ▸ isParent) notChild
    · exact known q (by omega) isParent
  | @waitKids next outside =>
    refine goto rfl rfl rfl fun q isParent => ?_
    have bound := family.inside q p isParent
    exact known q (by omega) isParent
  | @waitReport slot zombie holds =>
    have different : slot ≠ p := notSelf (by rw [zombie]; intro equal; cases equal)
    refine family.slot consistent here effect different
      (setSlot_procs _ different _ _) self (consistent.bounded_owner holds) ?_
      (.inr ⟨rfl, rfl⟩) (fun _ => rfl) (fun equal => by cases equal) rfl wakes
      (fun r => family.known_locked consistent here effect
        (.inr (owner (by simp [Pc.locks]))) ?_) trivial
    · simp [Proc.Alive, zombie]
    · intro other found _ isChild
      have used := (consistent.child other found isChild).2
      refine (setSlot_field Proc.parent (fun _ _ => rfl) _ slot p found _ _).trans (if_neg ?_)
      intro equal
      rw [equal, zombie] at used
      cases used
  | @waitNext slot notZombie =>
    refine goto rfl rfl rfl
      fun q bound isParent => ?_
    by_cases same : q = slot
    · rw [same]
      exact notZombie
    · exact known.2 q (by omega) isParent
  | waitTested next =>
    rcases next with equal | equal
    · subst equal
      exact goto rfl rfl rfl trivial
    · subst equal
      exact goto rfl rfl rfl known

theorem not_inWaitSleep (external : ∀ lk ∈ pc.locks p, lk.internal = false) :
    pc.inWaitSleep = false := by
  by_contra inside
  have member : .proc p ∈ pc.locks p := by
    cases pc <;> simp_all [Pc.inWaitSleep, Pc.locks]
  cases external _ member

theorem Yields.family (yields : Yields state c p after) (consistent : Consistent slots state)
    (family : Family slots state) (here : (state.cpu c).ctx = .thread p) :
    Family slots after := by
  have effect := yields.effect consistent here
  have known := family.known p
  cases yields with
  | timer awake enabled available =>
    have external := effect.interrupted (by simp)
    refine family.turn consistent here effect rfl (.of_state rfl rfl)
      (.inl (not_inWaitSleep (by simpa using external))) known ?_
    exact fun _ _ _ holds => absurd holds (consistent.counted.owner_ne enabled _)
  | yield inside =>
    have running : (state.proc p).state = .running := by
      rw [consistent.thread c p here, Proc.threadState, inside]
    have external := consistent.interrupted p (by rw [inside]; intro equal; cases equal)
    refine family.goto consistent here effect rfl ?_ (not_inWaitSleep external) ?_ known
    · constructor <;> simp [Proc.Alive, running]
    · simp [Proc.wakes, inside]
  | resume inside holds =>
    have external := consistent.interrupted p (by rw [inside]; intro equal; cases equal)
    refine family.goto consistent here effect rfl (.of_state rfl rfl)
      (not_inWaitSleep external) ?_ known
    simp [Proc.wakes, inside]

theorem Family.switchOut (family : Family slots state) (consistent : Consistent slots state)
    (here : (state.cpu c).ctx = .thread p) (holds : state.spin.owner (.proc p) = some c)
    (only : state.spin.noff c = 1) (kin : (state.proc p).Kin proc)
    (asleep : proc.Asleep .wait → (state.proc p).Asleep .wait) (known : Known state.proc p proc.pc) :
    Family slots ((state.setProc p proc).setCtx c (.scheduler (.back (state.cpu c).context))) := by
  set after := (state.setProc p proc).setCtx c (.scheduler (.back (state.cpu c).context))
  have self : after.proc p = proc := setProc_proc_self ..
  have rest : ∀ {r}, r ≠ p → after.proc r = state.proc r := fun different =>
    setProc_proc_of_ne _ _ different
  have kinAll : ∀ r, (state.proc r).Kin (after.proc r) := kin_update rfl kin
  have asleepAll : ∀ r, (after.proc r).Asleep .wait → (state.proc r).Asleep .wait := by
    intro r nowAsleep
    by_cases same : r = p
    · rw [same, self] at nowAsleep
      rw [same]
      exact asleep nowAsleep
    · rw [rest same] at nowAsleep
      exact nowAsleep
  apply family.frame kinAll
  · intro r
    by_cases same : r = p
    · rw [same, self]
      exact known.kin kinAll asleepAll
    · rw [rest same]
      exact (family.known r).kin kinAll asleepAll
  · intro r q nowAsleep isParent dead
    rcases family.woken r q (asleepAll r nowAsleep) isParent dead with ⟨d, next, held, scan, bound⟩
    -- this CPU holds no lock but `p->lock`, so the `wakeup` is another one's
    have different : d ≠ c := by
      intro same
      rw [same] at held
      cases consistent.counted.owner_unique only holds held
    refine ⟨d, next, held, ?_, bound⟩
    have ctx : after.cpu d = state.cpu d := setCtx_cpu_of_ne _ _ different
    rw [ctx, ← scan]
    apply Ctx.wakes_congr
    intro s found
    rw [rest]
    · exact ⟨rfl, rfl⟩
    · intro same
      rw [same] at found
      exact different (consistent.unique d c p found here)

theorem Switches.family (switches : Switches state c p after)
    (consistent : Consistent slots state) (family : Family slots state)
    (here : (state.cpu c).ctx = .thread p) : Family slots after := by
  have self := consistent.thread c p here
  cases switches with
  | schedYield inside holds only =>
    have external := consistent.interrupted p (by rw [inside]; intro equal; cases equal)
    refine family.switchOut consistent here holds only (.of_state rfl rfl) ?_ (family.known p)
    exact (absurd · (Proc.not_asleep (not_inWaitSleep external)))
  | @schedSleep call awake inside holds only =>
    have sleeping : (state.proc p).state = .sleeping := by
      rw [self, Proc.threadState, awake, inside]
      rfl
    refine family.switchOut consistent here holds only (.of_state rfl rfl) ?_ trivial
    intro asleep
    rcases asleep with ⟨running, _⟩ | ⟨_, sched | resumed⟩
    · cases sleeping.symm.trans running
    · cases sched
    · cases resumed
      exact .inr ⟨sleeping, .inl inside⟩
  | schedExit awake inside holds only =>
    refine family.switchOut consistent here holds only (.of_state rfl rfl) ?_ trivial
    exact (absurd · (Proc.not_asleep rfl))

variable {schedPc : SchedPc}

theorem Family.schedule (family : Family slots state) {cpu : Cpu}
    (here : (state.cpu c).ctx = .scheduler schedPc) (cpus : after.cpu = update state.cpu c cpu)
    (place : ∀ r, (after.proc r).pc = (state.proc r).pc ∧
      (after.proc r).yielding = (state.proc r).yielding)
    (kin : ∀ r, (state.proc r).Kin (after.proc r))
    (calm : ∀ r, (state.proc r).Calmer (after.proc r))
    (others : ∀ d, d ≠ c → state.spin.owner .wait = some d → after.spin.owner .wait = some d) :
    Family slots after := by
  apply family.frame kin
  · intro r
    rw [(place r).1]
    exact (family.known r).kin kin fun s => (calm s).asleep
  · intro r q nowAsleep isParent dead
    rcases family.woken r q ((calm r).asleep nowAsleep) isParent dead with
      ⟨d, next, held, scan, bound⟩
    -- the handlers that run on the scheduler's stack use other channels
    have different : d ≠ c := by
      intro same
      rw [same, here] at scan
      cases schedPc <;> simp [Ctx.wakes] at scan
    refine ⟨d, next, others d different held, ?_, bound⟩
    rw [cpus, update_of_ne different, ← scan]
    exact Ctx.wakes_congr fun s _ => place s

theorem Schedules.family (schedules : Schedules slots state c schedPc after)
    (consistent : Consistent slots state) (family : Family slots state)
    (here : (state.cpu c).ctx = .scheduler schedPc) : Family slots after := by
  have place : ∀ r, (state.proc r).pc = (state.proc r).pc ∧
      (state.proc r).yielding = (state.proc r).yielding := fun _ => ⟨rfl, rfl⟩
  have calm : ∀ r, (state.proc r).Calmer (state.proc r) := fun _ => Proc.Calmer.refl _
  have kin : ∀ r, (state.proc r).Kin (state.proc r) := fun _ => Proc.Kin.refl _
  have takes : ∀ {lk : Lock}, state.spin.owner lk = none → ∀ d, d ≠ c →
      state.spin.owner .wait = some d → (state.spin.taken c lk).owner .wait = some d :=
    fun available d _ holds => (Spinlocks.taken_owner_iff available).mpr (.inl holds)
  have drops : ∀ {lk : Lock}, .wait ≠ lk → ∀ d, d ≠ c →
      state.spin.owner .wait = some d → (state.spin.dropped c lk).owner .wait = some d :=
    fun other d _ holds => Spinlocks.dropped_owner_iff.mpr ⟨holds, other⟩
  cases schedules with
  | lock inside available | interrupt available | wakeLock inside available =>
    exact family.schedule here rfl place kin calm (takes available)
  | again => exact family.schedule here rfl place kin calm fun _ _ holds => holds
  | @dispatch slot runnable =>
    refine family.schedule here (by rfl) (setProc_place (by rfl) (by rfl)) (kin_update (by rfl) ?_)
      (setProc_calmer (consistent.dispatch_calmer here runnable)) fun _ _ holds => holds
    constructor <;> simp [Proc.Alive, runnable]
  | skip holds | finish holds | wakeReturn outside holds =>
    exact family.schedule here rfl place kin calm (drops nofun)
  | @wakeSlot chan lk slot resume holds =>
    have touched := wakeProc_touched consistent (some (.other chan)) holds (by
      rw [here]
      exact nofun)
    exact family.schedule here rfl (setProc_place (wakeProc_pc ..) (wakeProc_yielding ..))
      (kin_update rfl (wakeProc_kin ..)) (setProc_calmer touched.calmer) (drops nofun)

theorem step_family (consistent : Consistent slots state) (noLoss : NoLoss state)
    (family : Family slots state) (stepEq : step slots cpus state label = .next after) :
    Family slots after := by
  rcases step_cases stepEq with
    ⟨pc, here, schedules⟩ | ⟨p, here, yields | switches | ⟨awake, moves⟩⟩
  · exact schedules.family consistent family here
  · exact yields.family consistent family here
  · exact switches.family consistent family here
  · exact moves.family consistent noLoss family here awake rfl

theorem boot_family (slots : Nat) : Family slots boot where
  alive q r isParent := by
    by_cases first : q = initproc <;> simp [boot, first] at isParent
  parent q notInit present := by
    simp [boot, notInit, Proc.Alive] at present
  init := by simp [boot, Proc.Alive]
  inside q r isParent := by
    by_cases first : q = initproc <;> simp [boot, first] at isParent
  unused q _ := by
    by_cases first : q = initproc <;> simp [boot, first]
  known p := by
    by_cases first : p = initproc <;> simp [boot, first, Known]
  woken r q asleep := by
    refine absurd asleep (Proc.not_asleep ?_)
    by_cases first : r = initproc <;> simp [boot, first, Pc.inWaitSleep]

end Frames

end Xv6.Sched
