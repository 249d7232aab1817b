import Xv6.Pipe.Moves

/-! # Wakeups of a pipe

Every process asleep on `&pi->nread` waits for bytes or for the end of the
writers, every process asleep on `&pi->nwrite` for space or for the end of the
readers, unless the holder of `pi->lock` is about to wake it. The one path that
breaks this is the return of a killed `pipewrite` that has already put bytes
into the buffer. -/

namespace Xv6.Pipes

open State

/-- What a process asleep on the channel waits to change. -/
def Pipe.Waits (pi : Pipe) : Chan → Prop
  | .nread => pi.empty = true ∧ pi.writeopen = true
  | .nwrite => pi.full = true ∧ pi.readopen = true

/-- The channel that a process sleeps on. -/
def Pc.asleep : Pc → Option Chan
  | .sleepReleased loop | .sleeping loop => some loop.chan
  | _ => none

/-- The process holds `pi->lock`. -/
def Pc.holds : Pc → Bool
  | .idle | .acquire _ | .sleepReleased _ | .sleeping _ | .kfree => false
  | _ => true

/-- The holder of `pi->lock` will wake the process `r`, if it sleeps on
`chan`, before it releases the lock. -/
def Pc.Wakes (chan : Chan) (r : Nat) : Pc → Prop
  | .write i _ start | .writeChecked i _ start => chan = .nread ∧ start < i
  | .copy .. => chan = .nwrite
  | .wakeup woken next _ => woken = chan ∧ next ≤ r
  | _ => False

/-- What the holder of `pi->lock` has established. -/
def Known (pi : Pipe) : Pc → Prop
  | .write i _ start => start ≤ i ∧ (start < i → pi.readopen = true)
  | .writeChecked i _ start => start ≤ i ∧ pi.readopen = true
  | .wakeup _ _ (.sleep ..) => pi.Waits .nwrite
  | .sleepLocked loop => pi.Waits loop.chan
  | _ => True

structure NoLoss (slots : Nat) (state : State) : Prop where
  holder : ∀ p, state.lock = some p ↔ (state.proc p).pc.holds = true
  inside : ∀ p chan, (state.proc p).pc.asleep = some chan → p < slots
  known : ∀ p, Known state.pipe (state.proc p).pc
  wakes : ∀ r chan, (state.proc r).pc.asleep = some chan →
    state.pipe.Waits chan ∨ ∃ p, state.lock = some p ∧ (state.proc p).pc.Wakes chan r

/-- A `pipewrite` that finds itself killed has put no byte into the buffer since
it got `pi->lock`. -/
def NoLateKill (state : State) : Nat × Action → Prop
  | (p, .proceed) => ∀ i n start, (state.proc p).pc = .write i n start →
      (i : Int) < n → (state.proc p).killed = true → i = start
  | _ => True

section Steps

variable {slots : Nat} {state after : State} {p : Nat} {pc : Pc}

@[simp] theorem setPc_pc_self (state : State) (p : Nat) (pc : Pc) :
    ((state.setPc p pc).proc p).pc = pc := by
  simp [setPc, setProc]

variable {p r : Nat}

theorem setPc_pc_of_ne (state : State) (different : r ≠ p) (pc : Pc) :
    ((state.setPc p pc).proc r).pc = (state.proc r).pc := by
  simp [setPc, setProc, different]

theorem returns_pc_self (state : State) (p : Nat) (result : Int) :
    ((state.returns p result).proc p).pc = .idle := by
  simp [returns, setProc]

theorem returns_pc_of_ne (state : State) (different : r ≠ p) (result : Int) :
    ((state.returns p result).proc r).pc = (state.proc r).pc := by
  simp [returns, setProc, setLock, different]

theorem Pc.asleep_of_holds (holds : pc.holds = true) : pc.asleep = none := by
  cases pc <;> first | rfl | cases holds

variable {pi : Pipe}

theorem Known.of_not_holds (free : pc.holds = false) : Known pi pc := by
  cases pc <;> first | exact trivial | cases free

variable {chan : Chan} {slot : Nat}

theorem known_wakeup : Known pi (.wakeup chan next ret) ↔ Known pi (.wakeup other slot ret) := by
  cases ret <;> exact Iff.rfl

section

variable (noLoss : NoLoss slots state)

include noLoss

theorem NoLoss.not_holds (mine : state.lock = some p ∨ state.lock = none) (different : r ≠ p) :
    (state.proc r).pc.holds = false := by
  rw [← Bool.not_eq_true, ← noLoss.holder]
  intro theirs
  rcases mine with mine | free
  · rw [mine] at theirs
    exact different (Option.some.inj theirs).symm
  · rw [free] at theirs
    cases theirs

theorem NoLoss.inCritical (mine : state.lock = some p) (lock : after.lock = state.lock)
    (rest : ∀ r, r ≠ p → (after.proc r).pc = (state.proc r).pc)
    (holds : (after.proc p).pc.holds = true) (known : Known after.pipe (after.proc p).pc)
    (wakes : ∀ r chan, r < slots → (state.proc r).pc.asleep = some chan →
      state.pipe.Waits chan ∨ (state.proc p).pc.Wakes chan r →
      after.pipe.Waits chan ∨ (after.proc p).pc.Wakes chan r) : NoLoss slots after := by
  have notSelf : ∀ {r chan}, (after.proc r).pc.asleep = some chan → r ≠ p := by
    intro r chan asleep same
    rw [same, Pc.asleep_of_holds holds] at asleep
    cases asleep
  constructor
  · intro r
    rw [lock]
    by_cases same : r = p
    · rw [same]
      exact iff_of_true mine holds
    · rw [rest r same]
      exact noLoss.holder r
  · intro r chan asleep
    rw [rest r (notSelf asleep)] at asleep
    exact noLoss.inside r chan asleep
  · intro r
    by_cases same : r = p
    · rw [same]
      exact known
    · rw [rest r same]
      exact Known.of_not_holds (noLoss.not_holds (.inl mine) same)
  · intro r chan asleep
    rw [rest r (notSelf asleep)] at asleep
    have before : state.pipe.Waits chan ∨ (state.proc p).pc.Wakes chan r := by
      rcases noLoss.wakes r chan asleep with waits | ⟨q, held, wakes⟩
      · exact .inl waits
      · rw [mine] at held
        cases held
        exact .inr wakes
    rcases wakes r chan (noLoss.inside r chan asleep) asleep before with waits | wakes
    · exact .inl waits
    · exact .inr ⟨p, lock.trans mine, wakes⟩

theorem NoLoss.acquires (free : state.lock = none) (lock : after.lock = some p)
    (rest : ∀ r, r ≠ p → (after.proc r).pc = (state.proc r).pc)
    (holds : (after.proc p).pc.holds = true) (known : Known after.pipe (after.proc p).pc)
    (wakes : ∀ r chan, state.pipe.Waits chan →
      after.pipe.Waits chan ∨ (after.proc p).pc.Wakes chan r) : NoLoss slots after := by
  have notSelf : ∀ {r chan}, (after.proc r).pc.asleep = some chan → r ≠ p := by
    intro r chan asleep same
    rw [same, Pc.asleep_of_holds holds] at asleep
    cases asleep
  constructor
  · intro r
    rw [lock]
    by_cases same : r = p
    · rw [same]
      exact iff_of_true rfl holds
    · rw [rest r same, noLoss.not_holds (.inr free) same, Option.some.injEq, eq_comm]
      exact iff_of_false same nofun
  · intro r chan asleep
    rw [rest r (notSelf asleep)] at asleep
    exact noLoss.inside r chan asleep
  · intro r
    by_cases same : r = p
    · rw [same]
      exact known
    · rw [rest r same]
      exact Known.of_not_holds (noLoss.not_holds (.inr free) same)
  · intro r chan asleep
    rw [rest r (notSelf asleep)] at asleep
    have before : state.pipe.Waits chan := by
      rcases noLoss.wakes r chan asleep with waits | ⟨q, held, _⟩
      · exact waits
      · rw [free] at held
        cases held
    rcases wakes r chan before with waits | wakes
    · exact .inl waits
    · exact .inr ⟨p, lock, wakes⟩

theorem NoLoss.releases (bound : p < slots) (mine : state.lock = some p) (lock : after.lock = none)
    (pipe : after.pipe = state.pipe) (rest : ∀ r, r ≠ p → (after.proc r).pc = (state.proc r).pc)
    (free : (after.proc p).pc.holds = false)
    (own : ∀ chan, (after.proc p).pc.asleep = some chan → state.pipe.Waits chan)
    (nothing : ∀ r chan, ¬(state.proc p).pc.Wakes chan r) : NoLoss slots after := by
  constructor
  · intro r
    rw [lock]
    by_cases same : r = p
    · rw [same, free]
      exact iff_of_false nofun nofun
    · rw [rest r same, noLoss.not_holds (.inl mine) same]
      exact iff_of_false nofun nofun
  · intro r chan asleep
    by_cases same : r = p
    · rw [same]
      exact bound
    · rw [rest r same] at asleep
      exact noLoss.inside r chan asleep
  · intro r
    by_cases same : r = p
    · rw [same]
      exact Known.of_not_holds free
    · rw [rest r same]
      exact Known.of_not_holds (noLoss.not_holds (.inl mine) same)
  · intro r chan asleep
    rw [pipe]
    by_cases same : r = p
    · rw [same] at asleep
      exact .inl (own chan asleep)
    · rw [rest r same] at asleep
      rcases noLoss.wakes r chan asleep with waits | ⟨q, held, wakes⟩
      · exact .inl waits
      · rw [mine] at held
        cases held
        exact absurd wakes (nothing r chan)

theorem NoLoss.outside (lock : after.lock = state.lock) (pipe : after.pipe = state.pipe)
    (holds : ∀ r, (after.proc r).pc.holds = (state.proc r).pc.holds)
    (kept : ∀ r, (state.proc r).pc.holds = true → (after.proc r).pc = (state.proc r).pc)
    (asleep : ∀ r chan, (after.proc r).pc.asleep = some chan → (state.proc r).pc.asleep = some chan) :
    NoLoss slots after := by
  constructor
  · intro r
    rw [lock, holds]
    exact noLoss.holder r
  · exact fun r chan nowAsleep => noLoss.inside r chan (asleep r chan nowAsleep)
  · intro r
    rw [pipe]
    cases found : (state.proc r).pc.holds with
    | true =>
      rw [kept r found]
      exact noLoss.known r
    | false => exact Known.of_not_holds ((holds r).trans found)
  · intro r chan nowAsleep
    rw [pipe, lock]
    rcases noLoss.wakes r chan (asleep r chan nowAsleep) with waits | ⟨q, held, wakes⟩
    · exact .inl waits
    · refine .inr ⟨q, held, ?_⟩
      rw [kept q ((noLoss.holder q).mp held)]
      exact wakes

/-- A step outside the lock by a process that is not about to sleep, or goes on
doing so. -/
theorem NoLoss.stays (lock : after.lock = state.lock) (pipe : after.pipe = state.pipe)
    (rest : ∀ r, r ≠ p → (after.proc r).pc = (state.proc r).pc)
    (free : (state.proc p).pc.holds = false) (still : (after.proc p).pc.holds = false)
    (asleep : ∀ chan, (after.proc p).pc.asleep = some chan → (state.proc p).pc.asleep = some chan) :
    NoLoss slots after := by
  apply noLoss.outside lock pipe
  · intro r
    by_cases same : r = p
    · rw [same, free, still]
    · rw [rest r same]
  · intro r holds
    by_cases same : r = p
    · rw [same, free] at holds
      cases holds
    · exact rest r same
  · intro r chan nowAsleep
    by_cases same : r = p
    · rw [same] at nowAsleep ⊢
      exact asleep chan nowAsleep
    · rw [rest r same] at nowAsleep
      exact nowAsleep

end

theorem wake_lock (state : State) (chan : Chan) (slot : Nat) :
    (wake state chan slot).lock = state.lock ∧ (wake state chan slot).pipe = state.pipe := by
  rw [wake]
  split
  · split <;> exact ⟨rfl, rfl⟩
  · exact ⟨rfl, rfl⟩

theorem wake_pc (state : State) (chan : Chan) (slot r : Nat) :
    ((wake state chan slot).proc r).pc = (state.proc r).pc ∨
      (r = slot ∧ ∃ loop, (state.proc r).pc = .sleeping loop ∧
        ((wake state chan slot).proc r).pc = .acquire (.loop loop)) := by
  by_cases same : r = slot
  · subst same
    rw [wake]
    split
    · rename_i loop sleeping
      split
      · exact .inr ⟨rfl, loop, sleeping, setPc_pc_self ..⟩
      · exact .inl rfl
    · exact .inl rfl
  · left
    rw [wake]
    split
    · split
      · exact setPc_pc_of_ne _ same _
      · rfl
    · rfl

theorem kill_pc (state : State) (p r : Nat) :
    ((kill state p).proc r).pc = (state.proc r).pc ∨
      ∃ loop, (state.proc r).pc = .sleeping loop ∧
        ((kill state p).proc r).pc = .acquire (.loop loop) := by
  by_cases same : r = p
  · subst same
    rw [kill]
    split
    · rename_i loop sleeping
      exact .inr ⟨loop, sleeping, by simp [setProc]⟩
    · exact .inl (by simp [setProc])
  · left
    rw [kill]
    split <;> simp [setProc, same]

theorem NoLoss.awakens (noLoss : NoLoss slots state)
    (same : after.lock = state.lock ∧ after.pipe = state.pipe)
    (pcs : ∀ r, (after.proc r).pc = (state.proc r).pc ∨
      ∃ loop, (state.proc r).pc = .sleeping loop ∧
        (after.proc r).pc = .acquire (.loop loop)) : NoLoss slots after := by
  apply noLoss.outside same.1 same.2
  · intro r
    rcases pcs r with equal | ⟨loop, sleeping, awake⟩
    · rw [equal]
    · rw [sleeping, awake]
      rfl
  · intro r holds
    rcases pcs r with equal | ⟨loop, sleeping, _⟩
    · exact equal
    · rw [sleeping] at holds
      cases holds
  · intro r chan asleep
    rcases pcs r with equal | ⟨loop, _, awake⟩
    · rw [← equal]
      exact asleep
    · rw [awake] at asleep
      cases asleep

/-- After the visit of `wakeup` to a slot its process does not sleep on the
channel. -/
theorem wake_awake (available : (state.proc slot).pc.locked = false) :
    ((wake state chan slot).proc slot).pc.asleep ≠ some chan := by
  rw [wake]
  split
  · rename_i loop sleeping
    split
    · rw [setPc_pc_self]
      exact nofun
    · rename_i other
      rw [sleeping]
      exact fun equal => other (Option.some.inj equal)
  · rename_i notSleeping
    cases found : (state.proc slot).pc with
    | sleepReleased loop =>
      rw [found] at available
      cases available
    | sleeping loop => exact absurd found (notSleeping loop)
    | _ => exact nofun

theorem NoLoss.wakeupSlot (noLoss : NoLoss slots state) {chan : Chan} {slot : Nat}
    {ret : WakeupReturn} (different : slot ≠ p)
    (available : (state.proc slot).pc.locked = false)
    (atPc : (state.proc p).pc = .wakeup chan slot ret) :
    NoLoss slots ((wake state chan slot).setPc p (.wakeup chan (slot + 1) ret)) := by
  have awakened : NoLoss slots (wake state chan slot) :=
    noLoss.awakens (wake_lock ..) fun r => (wake_pc state chan slot r).imp_right And.right
  have still : ((wake state chan slot).proc p).pc = .wakeup chan slot ret := by
    rcases wake_pc state chan slot p with equal | ⟨same, _⟩
    · exact equal.trans atPc
    · exact absurd same.symm different
  have known := awakened.known p
  have mine : (wake state chan slot).lock = some p :=
    (awakened.holder p).mpr (by rw [still]; rfl)
  rw [still] at known
  refine awakened.inCritical mine rfl (fun r ne => setPc_pc_of_ne _ ne _) ?_ ?_ ?_
  · rw [setPc_pc_self]
    rfl
  · rw [setPc_pc_self]
    exact known_wakeup.mp known
  · rw [still, setPc_pc_self]
    intro r woken bound asleep before
    refine before.imp_right fun wakes => ⟨wakes.1, ?_⟩
    have passed : r ≠ slot := by
      intro same
      rw [same, ← wakes.1] at asleep
      exact wake_awake available asleep
    have reached := wakes.2
    omega

theorem Moves.noLoss (moves : Moves slots state p pc after) (noLoss : NoLoss slots state)
    (bound : p < slots) (atPc : (state.proc p).pc = pc)
    (late : ∀ i n start, pc = .write i n start → (i : Int) < n →
      (state.proc p).killed = true → i = start) : NoLoss slots after := by
  have mine : pc.holds = true → state.lock = some p := by
    intro holds
    rw [noLoss.holder, atPc]
    exact holds
  have known := noLoss.known p
  rw [atPc] at known
  have rest : ∀ {state : State} {pc : Pc} (r : Nat), r ≠ p →
      ((state.setPc p pc).proc r).pc = (state.proc r).pc :=
    fun r different => setPc_pc_of_ne _ different _
  -- the steps of the holder of the lock that leave the pipe alone
  have goto : ∀ {next : Pc}, pc.holds = true → next.holds = true → Known state.pipe next →
      (∀ r chan, r < slots → (state.proc r).pc.asleep = some chan → pc.Wakes chan r →
        state.pipe.Waits chan ∨ next.Wakes chan r) →
      NoLoss slots (state.setPc p next) := by
    intro next holds holdsNext knownNext wakes
    refine noLoss.inCritical (mine holds) rfl rest ?_ ?_ ?_
    · rw [setPc_pc_self]
      exact holdsNext
    · rw [setPc_pc_self]
      exact knownNext
    · rw [atPc, setPc_pc_self]
      intro r chan inside asleep before
      rcases before with waits | wakesNow
      · exact .inl waits
      · exact wakes r chan inside asleep wakesNow
  cases moves with
  | call | kfree =>
    refine noLoss.stays rfl rfl rest (by rw [atPc]; rfl) ?_ ?_
    · rw [setPc_pc_self]; rfl
    · rw [setPc_pc_self]
      exact nofun
  | acquireWrite available =>
    refine noLoss.acquires available rfl rest ?_ ?_ ?_
    · rw [setPc_pc_self]; rfl
    · rw [setPc_pc_self]
      exact ⟨Nat.le_refl _, fun impossible => absurd impossible (Nat.lt_irrefl _)⟩
    · exact fun _ _ waits => .inl waits
  | acquireRead available =>
    refine noLoss.acquires available rfl rest ?_ ?_ ?_
    · rw [setPc_pc_self]; rfl
    · rw [setPc_pc_self]
      exact trivial
    · exact fun _ _ waits => .inl waits
  | closeWrite available =>
    refine noLoss.acquires available rfl rest ?_ ?_ ?_
    · rw [setPc_pc_self]; rfl
    · rw [setPc_pc_self]
      exact trivial
    · rw [setPc_pc_self]
      intro r chan waits
      cases chan with
      | nread => exact .inr ⟨rfl, Nat.zero_le r⟩
      | nwrite => exact .inl waits
  | closeRead available =>
    refine noLoss.acquires available rfl rest ?_ ?_ ?_
    · rw [setPc_pc_self]; rfl
    · rw [setPc_pc_self]
      exact trivial
    · rw [setPc_pc_self]
      intro r chan waits
      cases chan with
      | nread => exact .inl waits
      | nwrite => exact .inr ⟨rfl, Nat.zero_le r⟩
  | @writeFail i n start more stop =>
    refine goto rfl rfl trivial fun r chan _ _ wakes => ?_
    have put := wakes.2
    rcases stop with closed | killed
    · rw [known.2 put] at closed
      cases closed
    · have equal := late i n start rfl more killed
      omega
  | writeCheck readopen =>
    exact goto rfl rfl ⟨known.1, readopen⟩ fun r chan _ _ wakes => .inr wakes
  | writeDone | writeFault =>
    exact goto rfl rfl trivial fun r chan _ _ wakes => .inr ⟨wakes.1.symm, Nat.zero_le r⟩
  | writeFull full =>
    exact goto rfl rfl ⟨full, known.2⟩ fun r chan _ _ wakes =>
      .inr ⟨wakes.1.symm, Nat.zero_le r⟩
  | writePut space =>
    refine noLoss.inCritical (mine rfl) rfl rest ?_ ?_ ?_
    · rw [setPc_pc_self]; rfl
    · rw [setPc_pc_self]
      exact ⟨Nat.le_succ_of_le known.1, fun _ => known.2⟩
    · rw [atPc, setPc_pc_self]
      intro r chan _ _ before
      cases chan with
      | nread => exact .inr ⟨rfl, Nat.lt_succ_of_le known.1⟩
      | nwrite =>
        -- nobody waits for space while there is some
        rcases before with waits | wakes
        · exact absurd (space.symm.trans waits.1) nofun
        · exact absurd wakes.1 nofun
  | readFail | readReady => exact goto rfl rfl trivial nofun
  | readSleep empty writeopen => exact goto rfl rfl ⟨empty, writeopen⟩ nofun
  | copyDone =>
    exact goto rfl rfl trivial fun r chan _ _ wakes => .inr ⟨wakes.symm, Nat.zero_le r⟩
  | copyTake nonempty next =>
    refine noLoss.inCritical (mine rfl) rfl rest ?_ ?_ ?_
    · rw [setPc_pc_self]
      rcases next with equal | equal <;> rw [equal] <;> rfl
    · rw [setPc_pc_self]
      rcases next with equal | equal <;> rw [equal] <;> exact trivial
    · rw [atPc, setPc_pc_self]
      intro r chan _ _ before
      cases chan with
      | nread =>
        -- nobody waits for bytes while there are some
        rcases before with waits | wakes
        · exact absurd (nonempty.symm.trans waits.1) nofun
        · exact absurd wakes nofun
      | nwrite =>
        right
        rcases next with equal | equal <;> rw [equal]
        · exact rfl
        · exact ⟨rfl, Nat.zero_le r⟩
  | wakeupSelf =>
    refine goto rfl rfl (known_wakeup.mp known) fun r chan _ asleep wakes => .inr ⟨wakes.1, ?_⟩
    have different : r ≠ p := by
      intro same
      rw [same, atPc] at asleep
      cases asleep
    have reached := wakes.2
    omega
  | wakeupSlot different available => exact noLoss.wakeupSlot different available atPc
  | @wakeupReturn chan next ret outside =>
    refine goto rfl ?_ ?_ fun r woken inside _ wakes => ?_
    · cases ret <;> rfl
    · cases ret with
      | sleep => exact known
      | release | close => exact trivial
    · have reached := wakes.2
      omega
  | sleepRelease =>
    refine noLoss.releases bound (mine rfl) rfl rfl rest ?_ ?_ ?_
    · rw [setPc_pc_self]; rfl
    · rw [setPc_pc_self]
      intro chan asleep
      cases asleep
      exact known
    · rw [atPc]
      exact fun _ _ => id
  | sleepState =>
    refine noLoss.stays rfl rfl rest (by rw [atPc]; rfl) ?_ ?_
    · rw [setPc_pc_self]; rfl
    · rw [atPc, setPc_pc_self]
      exact fun chan asleep => asleep
  | release | closeReturn =>
    refine noLoss.releases bound (mine rfl) rfl rfl ?_ ?_ ?_ ?_
    · exact fun r different => returns_pc_of_ne _ different _
    · rw [returns_pc_self]; rfl
    · rw [returns_pc_self]
      exact nofun
    · rw [atPc]
      exact fun _ _ => id
  | closeLast =>
    refine noLoss.releases bound (mine rfl) rfl rfl rest ?_ ?_ ?_
    · rw [setPc_pc_self]; rfl
    · rw [setPc_pc_self]
      exact nofun
    · rw [atPc]
      exact fun _ _ => id

theorem step_noLoss (noLoss : NoLoss slots state) (late : NoLateKill state label)
    (stepEq : step slots state label = .next after) : NoLoss slots after := by
  rcases label with ⟨p, action⟩
  rcases step_cases stepEq with ⟨bound, ⟨moves, proceeds⟩ | ⟨_, rfl⟩⟩
  · apply moves.noLoss noLoss bound rfl
    intro i n start atPc more killed
    rw [proceeds i n start atPc] at late
    exact late i n start atPc more killed
  · refine noLoss.awakens ?_ (kill_pc state p)
    rw [kill]
    split <;> exact ⟨rfl, rfl⟩

theorem boot_noLoss (slots : Nat) (data : Nat → UInt8) (killed : Nat → Bool) :
    NoLoss slots (boot data killed) where
  holder _ := iff_of_false nofun nofun
  inside _ _ := nofun
  known _ := trivial
  wakes _ _ := nofun

end Steps

/-- In a run in which no `pipewrite` finds itself killed after it has put bytes
into the buffer, whenever `pi->lock` is free, a process asleep on `&pi->nread`
finds the pipe empty and open for writing, and one asleep on `&pi->nwrite` finds
it full and open for reading. -/
theorem pipe_misses_no_wakeup {slots : Nat} {data : Nat → UInt8} {killed : Nat → Bool}
    {labels : List (Nat × Action)} {state : State}
    (run : StepsWhere (step slots) NoLateKill (boot data killed) labels state)
    (free : state.lock = none) (p : Nat) :
    ((state.proc p).pc.asleep = some .nread →
      state.pipe.nread = state.pipe.nwrite ∧ state.pipe.writeopen = true) ∧
    ((state.proc p).pc.asleep = some .nwrite →
      state.pipe.nwrite = state.pipe.nread + 512 ∧ state.pipe.readopen = true) := by
  have noLoss : NoLoss slots state := by
    apply run.invariant _ (boot_noLoss slots data killed)
    exact fun _ _ _ kept late stepEq => step_noLoss kept late stepEq
  have waits : ∀ chan, (state.proc p).pc.asleep = some chan → state.pipe.Waits chan := by
    intro chan asleep
    rcases noLoss.wakes p chan asleep with waits | ⟨q, held, _⟩
    · exact waits
    · rw [free] at held
      cases held
  constructor
  · intro asleep
    rcases waits .nread asleep with ⟨empty, writeopen⟩
    exact ⟨of_decide_eq_true empty, writeopen⟩
  · intro asleep
    rcases waits .nwrite asleep with ⟨full, readopen⟩
    exact ⟨of_decide_eq_true full, readopen⟩

theorem noLateKill_of_alive (state : State) (label : Nat × Action)
    (alive : (!(state.proc label.1).killed) = true) : NoLateKill state label := by
  rcases label with ⟨p, action⟩
  cases action with
  | proceed =>
    intro _ _ _ _ _ killed
    simp [killed] at alive
  | _ => exact trivial

/-- A reader goes to sleep on the empty pipe. -/
def sleepingReader : List (Nat × Action) :=
  [(0, .call (.piperead 1)), (0, .proceed), (0, .proceed), (0, .proceed), (0, .proceed)]

theorem pipe_misses_no_wakeup_sleepingReader : ∃ state,
    StepsWhere (step 2) NoLateKill (boot (fun _ => 0) fun _ => false) sleepingReader state ∧
    state.lock = none ∧ (state.proc 0).pc = .sleeping (.read 1) ∧
    state.pipe.nread = state.pipe.nwrite ∧ state.pipe.writeopen = true := by
  have ran := Outcome.eq_next_of_isNext (boot (fun _ => 0) fun _ => false)
    (show (runStepsWhere (step 2) (fun state label => !(state.proc label.1).killed)
      (boot (fun _ => 0) fun _ => false) sleepingReader).isNext = true by decide +kernel)
  have run := StepsWhere.of_runStepsWhere noLateKill_of_alive ran
  have sleeping := (by decide +kernel : (((runStepsWhere (step 2)
    (fun state label => !(state.proc label.1).killed) (boot (fun _ => 0) fun _ => false)
    sleepingReader).getD (boot (fun _ => 0) fun _ => false)).proc 0).pc = .sleeping (.read 1))
  have waits := (pipe_misses_no_wakeup run (by decide +kernel) 0).1 (by rw [sleeping]; rfl)
  exact ⟨_, run, by decide +kernel, sleeping, waits⟩

/-- A reader goes to sleep on the empty pipe; a writer puts a byte in, is killed,
and returns. -/
def killedWriter : List (Nat × Action) :=
  [(0, .call (.piperead 1)), (0, .proceed), (0, .proceed), (0, .proceed), (0, .proceed),
    (1, .call (.pipewrite 2)), (1, .proceed), (1, .proceed), (1, .copyin (some 7)),
    (1, .kill), (1, .proceed), (1, .proceed)]

/-- The reader sleeps on although the pipe holds a byte and `pi->lock` is free. -/
theorem killedWriter_loses_wakeup : ∃ state,
    Steps (step 2) (boot (fun _ => 0) fun _ => false) killedWriter state ∧
    state.lock = none ∧ (state.proc 0).pc = .sleeping (.read 1) ∧
    state.pipe.nread ≠ state.pipe.nwrite ∧ (state.proc 1).result = -1 := by
  have ran := Outcome.eq_next_of_isNext (boot (fun _ => 0) fun _ => false)
    (show (runSteps (step 2) (boot (fun _ => 0) fun _ => false) killedWriter).isNext = true by
      decide +kernel)
  refine ⟨_, steps_iff_runSteps.mpr ran, ?_, ?_, ?_, ?_⟩ <;> decide +kernel

end Xv6.Pipes
