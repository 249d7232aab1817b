import Xv6.Sched.Consistent

/-! # A process runs on at most one CPU

Every step of every CPU keeps the agreement between threads, locks and process
states. So no two CPUs ever run the same process. -/

namespace Xv6.Sched

open State
open Function (update update_self update_of_ne update_eq_self update_idem)

/-! ## Every step keeps the invariant -/

section Steps

variable {slots : Nat} {state after : State} {c p : Nat} {pc : Pc}

variable {slot : Nat}

theorem setSlot_procs (state : State) (different : slot ≠ p) (other : Proc) (pc : Pc) :
    ((state.setProc slot other).setPc p pc).proc =
      update (update state.proc slot other) p { state.proc p with pc := pc } := by
  simp only [setPc, setProc, update_of_ne different.symm]

theorem ownSlot_procs (state : State) (p : Nat) (other : Proc) (pc : Pc) :
    ((state.setProc p other).setPc p pc).proc = update state.proc p { other with pc := pc } := by
  simp only [setPc, setProc, update_self, update_idem]

theorem wakeProc_touched (consistent : Consistent slots state) (chan : Option Chan)
    (holds : state.spin.owner (.proc slot) = some c) (different : (state.cpu c).ctx ≠ .thread slot) :
    Touched state c slot (wakeProc chan (state.proc slot)) := by
  rw [wakeProc]
  split
  · rename_i asleep
    have notRunning : (state.proc slot).state ≠ .running := by
      rw [asleep.1]
      exact nofun
    have parked := consistent.parked slot fun d =>
      consistent.not_thread holds notRunning different
    exact .inr ⟨holds, notRunning, nofun,
      ⟨nofun, fun _ => parked.resumable (.inr (.inr asleep.1)), parked.notWait⟩, .inl ⟨rfl, rfl⟩⟩
  · exact .inl (Proc.Same.refl _)

section

variable (consistent : Consistent slots state) (holds : state.spin.owner (.proc slot) = some c)
  (different : (state.cpu c).ctx ≠ .thread slot)

include consistent holds different

theorem killProc_touched : Touched state c slot (killProc (state.proc slot)) := by
  by_cases asleep : (state.proc slot).state = .sleeping
  · have notRunning : (state.proc slot).state ≠ .running := by
      rw [asleep]
      exact nofun
    have parked := consistent.parked slot fun d =>
      consistent.not_thread holds notRunning different
    have awakened : (killProc (state.proc slot)).state = .runnable := if_pos asleep
    refine .inr ⟨holds, notRunning, ?_,
      ⟨?_, fun _ => parked.resumable (.inr (.inr asleep)), parked.notWait⟩, .inl ⟨rfl, rfl⟩⟩
    · rw [awakened]
      exact nofun
    · rw [awakened]
      exact nofun
  · exact .inl ⟨rfl, rfl, if_neg asleep, rfl⟩

theorem freeproc_touched (notRunning : (state.proc slot).state ≠ .running) :
    Touched state c slot (freeproc (state.proc slot)) := by
  have parked := consistent.parked slot fun d =>
    consistent.not_thread holds notRunning different
  refine .inr ⟨holds, notRunning, nofun, ⟨nofun, ?_, parked.notWait⟩, .inl ⟨rfl, rfl⟩⟩
  intro impossible
  rcases impossible with used | runnable | sleeping
  · cases used
  · cases runnable
  · cases sleeping

end

variable {proc : Proc}

theorem wakeProc_used (used : proc.state = .used) : (wakeProc chan proc).state = .used := by
  rw [wakeProc, if_neg]
  · exact used
  · rw [used]
    exact nofun

theorem killProc_used (used : proc.state = .used) : (killProc proc).state = .used := by
  simp [killProc, used]

section Own

variable (consistent : Consistent slots state) (here : (state.cpu c).ctx = .thread p)
  (awake : (state.proc p).yielding = none) (atPc : (state.proc p).pc = pc)

include consistent here awake atPc

omit consistent in
theorem locks_now : (state.cpu c).ctx.locks state.proc = pc.locks p := by
  rw [here, Ctx.locks, Proc.locks, awake, atPc]

theorem state_now : (state.proc p).state = pc.state := by
  rw [consistent.thread c p here, Proc.threadState, awake, atPc]

/-- The child of a `fork` in progress is USED, so it is not the thread itself. -/
theorem child_now (isChild : pc.child = some slot) (running : pc.state = .running) :
    (state.proc p).pc.child = some slot ∧ slot < slots ∧ (state.proc slot).state = .used ∧
      (state.proc slot).state ≠ .running ∧ slot ≠ p := by
  have found : (state.proc p).pc.child = some slot := atPc ▸ isChild
  rcases consistent.child p slot found with ⟨inside, used⟩
  have notRunning : (state.proc slot).state ≠ .running := by simp [used]
  refine ⟨found, inside, used, notRunning, fun equal => notRunning ?_⟩
  rw [equal, state_now consistent here awake atPc, running]

variable {next : Pc}

theorem Effect.ofSame (nextState : pc.state = next.state) (child : next.child = none)
    (locks : next.locks p = pc.locks p) : Effect slots state c p (state.setPc p next) := by
  refine consistent.effectOwn here rfl rfl awake ?_
    ((state_now consistent here awake atPc).trans nextState) (.inl child)
  exact .same consistent (locks_now here awake atPc) rfl fun lk _ => by
    rw [← locks]

variable {lk : Lock}

section

variable (nextState : pc.state = next.state) (child : next.child = none ∨ next.child = pc.child)

include nextState child

theorem Effect.ofTake (free : state.spin.owner lk = none) (inside : ∀ r, lk = .proc r → r < slots)
    (gains : ∀ other : Lock, other.internal = true →
      (other ∈ next.locks p ↔ other ∈ pc.locks p ∨ other = lk)) :
    Effect slots state c p ((state.take c lk).setPc p next) := by
  refine consistent.effectOwn here rfl rfl awake ?_
    ((state_now consistent here awake atPc).trans nextState) (atPc ▸ child)
  exact .take consistent (locks_now here awake atPc) rfl free inside gains

theorem Effect.ofDrop (holds : state.spin.owner lk = some c)
    (loses : ∀ other : Lock, other.internal = true →
      (other ∈ next.locks p ↔ other ∈ pc.locks p ∧ other ≠ lk)) :
    Effect slots state c p ((state.drop c lk).setPc p next) := by
  refine consistent.effectOwn here rfl rfl awake ?_
    ((state_now consistent here awake atPc).trans nextState) (atPc ▸ child)
  exact .drop consistent (locks_now here awake atPc) rfl holds loses

end

end Own

theorem Moves.effect (moves : Moves slots state c p pc after)
    (consistent : Consistent slots state) (here : (state.cpu c).ctx = .thread p)
    (awake : (state.proc p).yielding = none) (atPc : (state.proc p).pc = pc) :
    Effect slots state c p after := by
  have now := locks_now here awake atPc
  have self := state_now consistent here awake atPc
  have bound : p < slots := (consistent.context c p here).2
  have different : ∀ {slot}, slot ≠ p → (state.cpu c).ctx ≠ .thread slot := by
    intro slot ne equal
    rw [here] at equal
    exact ne (Ctx.thread.inj equal).symm
  have notSelf : ∀ {slot}, (state.proc slot).state ≠ pc.state → slot ≠ p := by
    intro slot ne equal
    exact ne (equal ▸ self)
  cases moves with
  | acquire available =>
    exact consistent.effectOwn here rfl (update_eq_self p state.proc).symm awake
      (.take consistent now rfl available (fun _ equal => by cases equal) (by
        rw [atPc]
        intro lk internal
        cases lk <;> simp_all [Pc.locks, Lock.internal]))
      (atPc ▸ self) (.inl (by rw [atPc]; rfl))
  | release holds =>
    exact consistent.effectOwn here rfl (update_eq_self p state.proc).symm awake
      (.drop consistent now rfl holds (by
        rw [atPc]
        intro lk internal
        cases lk <;> simp_all [Pc.locks, Lock.internal]))
      (atPc ▸ self) (.inl (by rw [atPc]; rfl))
  | callSleep available =>
    exact .ofTake consistent here awake atPc rfl (.inl rfl) available (by simp [bound]) (by
      intro lk internal
      cases lk <;> simp_all [Pc.locks, Lock.internal, SleepCall.lock])
  | callWakeup | callKill | callFork | wakeupSelf | killNone | forkNone | reparentOther
  | reparented | waitOther | waitKids | waitNoKids => exact .ofSame consistent here awake atPc rfl rfl rfl
  | callExit _ available | callWait available =>
    exact .ofTake consistent here awake atPc rfl (.inl rfl) available (fun _ equal => by cases equal) (by simp [Pc.locks])
  | @sleepRelease call holds =>
    exact consistent.effectOwn here rfl rfl awake
      (.drop consistent now rfl holds (by
        intro lk internal
        cases call <;> cases lk <;> simp_all [Pc.locks, Lock.internal, SleepCall.lock]))
      self (.inl rfl)
  | sleepState =>
    exact consistent.effectOwn here rfl rfl awake (.same consistent now rfl fun _ _ => Iff.rfl)
      rfl (.inl rfl)
  | sleepResume holds =>
    exact consistent.effectOwn here rfl rfl awake
      (.drop consistent now rfl holds (by simp [Pc.locks])) self (.inl rfl)
  | @sleepReturn call available =>
    cases call with
    | other chan lk =>
      exact .ofTake consistent here awake atPc rfl (.inl rfl) available (fun _ equal => by cases equal) (by
        intro lk internal
        cases lk <;> simp_all [Pc.locks, Lock.internal, SleepCall.lock, SleepCall.pc])
    | wait =>
      exact .ofTake consistent here awake atPc rfl (.inl rfl) available (fun _ equal => by cases equal)
        (by simp [Pc.locks, SleepCall.lock, SleepCall.pc])
  | wakeupLock inside _ available | killLock inside available | forkLock inside available
  | waitLock inside _ available =>
    exact .ofTake consistent here awake atPc rfl (.inl rfl) available (by simpa using inside) (by simp [Pc.locks, or_comm])
  | @wakeupReturn chan next ret outside =>
    cases ret <;> exact consistent.effectOwn here rfl rfl awake
      (.same consistent now rfl fun _ _ => Iff.rfl) self (.inl rfl)
  | @wakeupSlot chan slot ret holds =>
    have loses : ∀ other : Lock, other.internal = true →
        (other ∈ (Pc.wakeup chan (slot + 1) ret).locks p ↔
          other ∈ (Pc.wakeupLocked chan slot ret).locks p ∧ other ≠ .proc slot) := by
      intro other _
      cases ret <;> cases other <;> simp [Pc.locks, WakeupReturn.locks]
    by_cases same : slot = p
    · subst same
      have running : wakeProc chan (state.proc slot) = state.proc slot := by
        rw [wakeProc, if_neg]
        rw [self]
        intro both
        cases both.1
      rw [running]
      exact consistent.effectOwn here rfl (ownSlot_procs ..) awake
        (.drop consistent now rfl holds loses) self (.inl rfl)
    · exact Effect.ofSlot rfl same (setSlot_procs _ same _ _) awake
        (.drop consistent now rfl holds loses) self
        (wakeProc_touched consistent chan holds (different same)) (.inl rfl)
        fun used => .inl (wakeProc_used used)
  | @killFound slot holds =>
    have loses : ∀ other : Lock, other.internal = true →
        (other ∈ Pc.free.locks p ↔
          other ∈ (Pc.killLocked (state.proc slot).pid slot).locks p ∧ other ≠ .proc slot) := by
      simp [Pc.locks]
    by_cases same : slot = p
    · subst same
      have running : (killProc (state.proc slot)).state = .running := by
        rw [killProc, self]
        rfl
      exact consistent.effectOwn here rfl (ownSlot_procs ..) awake
        (.drop consistent now rfl holds loses) running (.inl rfl)
    · exact Effect.ofSlot rfl same (setSlot_procs _ same _ _) awake
        (.drop consistent now rfl holds loses) self
        (killProc_touched consistent holds (different same)) (.inl rfl)
        fun used => .inl (killProc_used used)
  | forkret holds | killNext holds | forkNext holds | waitReturn holds =>
    exact .ofDrop consistent here awake atPc rfl (.inl rfl) holds (by simp [Pc.locks])
  | @reparentChild status next inside child =>
    have same : ∀ other : Lock, other.internal = true →
        (other ∈ (Pc.wakeup (some (.proc initproc)) 0 (.reparent status next)).locks p ↔
          other ∈ (Pc.reparent status next).locks p) := fun _ _ => Iff.rfl
    by_cases own : next = p
    · subst own
      exact consistent.effectOwn here rfl (ownSlot_procs ..) awake
        (.same consistent now rfl same) self (.inl rfl)
    · exact Effect.ofSlot rfl own (setSlot_procs _ own _ _) awake
        (.same consistent now rfl same) self (.inl ⟨rfl, rfl, rfl, rfl⟩) (.inl rfl) .inl
  | exitLock available | waitKilled available | waitSleep available =>
    exact .ofTake consistent here awake atPc rfl (.inl rfl) available (by simpa using bound)
      (by simp [Pc.locks, SleepCall.lock, or_comm])
  | exitState holds =>
    exact consistent.effectOwn here rfl rfl awake
      (.drop consistent now rfl holds (by
        intro lk _
        cases lk <;> simp [Pc.locks]))
      rfl (.inl rfl)
  | @forkAlloc slot unused =>
    have holds : state.spin.owner (.proc slot) = some c := by
      rw [consistent.owner c _ rfl, now]
      exact List.mem_singleton_self _
    have notRunning : (state.proc slot).state ≠ .running := by simp [unused]
    have same : slot ≠ p := notSelf notRunning
    exact Effect.ofSlot rfl same (setSlot_procs _ same _ _) awake
      (.same consistent now rfl fun _ _ => Iff.rfl) self
      (.inr ⟨holds, notRunning, (fun equal => by cases equal),
        ⟨(fun equal => by cases equal), fun _ => .inr ⟨rfl, .inl rfl⟩,
          by simp [allocproc, Pc.locks]⟩,
        .inr ⟨rfl, rfl⟩⟩)
      (.inr ⟨rfl, consistent.bounded_owner holds, rfl, .inr unused⟩) fun _ => .inl rfl
  | @forkRelease slot holds =>
    rcases child_now consistent here awake atPc rfl rfl with
      ⟨isChild, inside, used, notRunning, same⟩
    exact Effect.ofSlot rfl same (setSlot_procs _ same _ _) awake
      (.drop consistent now rfl holds (by simp [Pc.locks])) self (.inl ⟨rfl, rfl, rfl, rfl⟩)
      (.inr ⟨rfl, inside, used, .inl isChild⟩) .inl
  | @forkFail slot holds =>
    rcases child_now consistent here awake atPc rfl rfl with
      ⟨isChild, inside, used, notRunning, same⟩
    exact Effect.ofSlot rfl same (setSlot_procs _ same _ _) awake
      (.drop consistent now rfl holds (by simp [Pc.locks])) self
      (freeproc_touched consistent holds (different same) notRunning) (.inl rfl)
      fun _ => .inr isChild
  | @forkParent slot available =>
    rcases child_now consistent here awake atPc rfl rfl with
      ⟨isChild, inside, used, notRunning, same⟩
    exact Effect.ofSlot rfl same (setSlot_procs _ same _ _) awake
      (.take consistent now rfl available (fun _ equal => by cases equal) (by simp [Pc.locks])) self
      (.inl ⟨rfl, rfl, rfl, rfl⟩) (.inr ⟨rfl, inside, used, .inl isChild⟩) .inl
  | @forkParented slot holds => exact .ofDrop consistent here awake atPc rfl (.inr rfl) holds (by simp [Pc.locks])
  | @forkReady slot available =>
    rcases child_now consistent here awake atPc rfl rfl with
      ⟨isChild, inside, used, notRunning, same⟩
    exact .ofTake consistent here awake atPc rfl (.inr rfl) available (by simpa using inside) (by simp [Pc.locks])
  | @forkRunnable slot holds =>
    rcases child_now consistent here awake atPc rfl rfl with
      ⟨isChild, inside, used, notRunning, same⟩
    have parked := consistent.parked slot fun d =>
      consistent.not_thread holds notRunning (different same)
    exact Effect.ofSlot rfl same (setSlot_procs _ same _ _) awake
      (.drop consistent now rfl holds (by simp [Pc.locks])) self
      (.inr ⟨holds, notRunning, (fun equal => by cases equal),
        ⟨(fun equal => by cases equal), fun _ => parked.resumable (.inl used), parked.notWait⟩,
        .inl ⟨rfl, rfl⟩⟩)
      (.inl rfl) fun _ => .inr isChild
  | @waitReport slot zombie holds =>
    have notRunning : (state.proc slot).state ≠ .running := by simp [zombie]
    have same : slot ≠ p := notSelf notRunning
    exact Effect.ofSlot rfl same (setSlot_procs _ same _ _) awake
      (.drop consistent now rfl holds (by
        intro lk _
        cases lk <;> simp [Pc.locks]))
      self (freeproc_touched consistent holds (different same) notRunning) (.inl rfl)
      fun used => by rw [zombie] at used; cases used
  | waitFail _ holds | waitNext _ holds =>
    refine .ofDrop consistent here awake atPc rfl (.inl rfl) holds ?_
    intro lk _
    cases lk <;> simp [Pc.locks]
  | waitTested next holds =>
    rcases next with equal | equal <;> subst equal <;> refine .ofDrop consistent here awake atPc rfl (.inl rfl) holds ?_ <;>
      intro lk _ <;> cases lk <;> simp [Pc.locks]

theorem Consistent.switchOut (consistent : Consistent slots state)
    (here : (state.cpu c).ctx = .thread p) (holds : state.spin.owner (.proc p) = some c)
    (only : state.spin.noff c = 1) (parked : proc.Parked)
    (child : proc.pc.child = (state.proc p).pc.child ∨ proc.pc.child = none)
    (interrupted : proc.yielding ≠ none → ∀ lk ∈ proc.pc.locks p, lk.internal = false) :
    Consistent slots
      ((state.setProc p proc).setCtx c (.scheduler (.back (state.cpu c).context))) := by
  have same : ∀ {r}, some p ≠ some r → (state.setProc p proc).proc r = state.proc r :=
    fun different => setProc_proc_of_ne _ _ fun equal => different (congrArg some equal.symm)
  refine consistent.turn (some p) rfl ?_ ?_
    (fun r found => by cases found) (fun r found => ?_) (fun r found => ?_) ?_
    (fun r different => ?_) (fun r different used => ?_)
  · refine ⟨consistent.counted, fun _ _ _ => Iff.rfl, fun lk internal => ?_,
      fun r held => consistent.bounded_owner held⟩
    simp only [Ctx.locks, SchedPc.locks, List.mem_singleton, (consistent.context c p here).1]
    constructor
    · exact fun held => consistent.counted.owner_unique only holds held
    · rintro rfl
      exact holds
  · rw [(consistent.context c p here).1]
    exact (consistent.current c).trans (by rw [here]; rfl)
  · rw [Ctx.thread.inj (here.symm.trans found)]
  · rw [← (consistent.context c p here).1]
    exact found
  · intro r isMine
    cases isMine
    refine ⟨consistent.alone_of_thread here, (consistent.context c p here).2,
      consistent.notUsed_of_thread here, (fun found => by cases found), ?_, ?_, ?_⟩
    · simpa using parked
    · simpa using interrupted
    · intro slot found
      simp only [setCtx_proc, setProc_proc_self] at found ⊢
      rcases child with kept | none
      · rw [kept] at found
        rcases consistent.child p slot found with ⟨bound, used⟩
        have ne : slot ≠ p := fun equal => consistent.notUsed_of_thread here (equal ▸ used)
        rw [setProc_proc_of_ne _ _ ne]
        exact ⟨bound, used, .inl found⟩
      · rw [none] at found
        cases found
  · rw [setCtx_proc, same different]
    exact .inl (Proc.Same.refl _)
  · rw [setCtx_proc, same different]
    exact .inl used

theorem Yields.effect (yields : Yields state c p after)
    (consistent : Consistent slots state) (here : (state.cpu c).ctx = .thread p) :
    Effect slots state c p after := by
  have bound : p < slots := (consistent.context c p here).2
  have self := consistent.thread c p here
  have now : (state.cpu c).ctx.locks state.proc = (state.proc p).locks p := by
    rw [here, Ctx.locks]
  cases yields with
  | timer awake enabled available =>
    have noLock : ∀ lk, lk.internal = true → lk ∉ (state.proc p).locks p := by
      intro lk internal member
      rw [← now] at member
      exact consistent.counted.owner_ne enabled lk ((consistent.owner c lk internal).mpr member)
    have pcLocks : (state.proc p).locks p = (state.proc p).pc.locks p := by
      rw [Proc.locks, awake]
    refine consistent.effectThread here (by rfl) (by rfl) ?_ ?_ ?_ (.inr (by rfl))
    · apply Locking.take consistent now rfl available (by simpa using bound)
      intro lk internal
      rw [or_iff_right (noLock lk internal)]
      exact List.mem_singleton
    · by_contra notRunning
      apply noLock (.proc p) rfl
      apply Proc.mem_locks_of_not_running
      rw [← self]
      exact notRunning
    · intro _ lk member
      by_contra internal
      exact noLock lk (by simpa using internal) (pcLocks ▸ member)
  | yield inside =>
    refine consistent.effectThread here (by rfl) (by rfl) ?_ (by rfl) ?_ (.inr (by rfl))
    · refine .same consistent now (by rfl) ?_
      intro lk _
      simp only [Proc.locks, inside]
    · intro _
      exact consistent.interrupted p (by rw [inside]; intro equal; cases equal)
  | resume inside holds =>
    have noLock := consistent.interrupted p (by rw [inside]; intro equal; cases equal)
    have running : (state.proc p).pc.state = .running := by
      by_contra notRunning
      have mine := @Proc.mem_locks_of_not_running { state.proc p with yielding := none } p
        notRunning
      exact absurd (noLock (.proc p) mine) (fun equal => by cases equal)
    refine consistent.effectThread here (by rfl) (by rfl) ?_ ?_ ?_ (.inr (by rfl))
    · apply Locking.drop consistent now rfl holds
      intro lk internal
      have absent : lk ∉ (state.proc p).pc.locks p := by
        intro member
        rw [noLock lk member] at internal
        cases internal
      simp only [Proc.locks, inside, absent, false_iff, not_and, not_not]
      exact fun member => List.mem_singleton.mp member
    · simp only [Proc.threadState, running]
      rw [self, Proc.threadState, inside]
    · exact fun impossible => absurd rfl impossible

theorem Switches.consistent (switches : Switches state c p after)
    (consistent : Consistent slots state) (here : (state.cpu c).ctx = .thread p) :
    Consistent slots after := by
  have self := consistent.thread c p here
  cases switches with
  | schedYield inside holds only =>
    have runnable : (state.proc p).state = .runnable := by
      rw [self, Proc.threadState, inside]
    have external := consistent.interrupted p (by rw [inside]; intro equal; cases equal)
    refine consistent.switchOut here holds only ⟨?_, fun _ => .inl rfl, ?_⟩ (.inl (by rfl))
      fun _ => external
    · rw [runnable]
      intro equal
      cases equal
    · intro other member
      cases external .wait ((Pc.wait_mem_locks other p).mp member)
  | @schedSleep call awake inside holds only =>
    have asleep : (state.proc p).state = .sleeping := by
      rw [self, Proc.threadState, awake, inside]
      rfl
    refine consistent.switchOut here holds only
      ⟨?_, fun _ => .inr ⟨awake, .inr ⟨call, rfl⟩⟩, by simp [Pc.locks]⟩ (.inr (by rfl))
      fun impossible => absurd awake impossible
    rw [asleep]
    intro equal
    cases equal
  | schedExit awake inside holds only =>
    have zombie : (state.proc p).state = .zombie := by
      rw [self, Proc.threadState, awake, inside]
      rfl
    refine consistent.switchOut here holds only ⟨?_, ?_, by simp [Pc.locks]⟩ (.inr (by rfl))
      fun impossible => absurd awake impossible
    · simp [zombie]
    · simp [zombie]

variable {pc : SchedPc}

theorem Consistent.schedule (consistent : Consistent slots state) {pc' : SchedPc}
    (here : (state.cpu c).ctx = .scheduler pc) {cpu : Cpu}
    (cpus : after.cpu = update state.cpu c cpu) (there : cpu.ctx = .scheduler pc')
    (noProc : cpu.proc = none) (notBack : (Ctx.scheduler pc').proc = none)
    (locking : Locking slots state after c pc'.locks) (rest : ∀ r, Touched state c r (after.proc r))
    (kept : ∀ r, (state.proc r).state = .used → (after.proc r).state = .used) :
    Consistent slots after := by
  refine consistent.turn none cpus ?_ ?_ (fun r found => ?_) (fun r found => ?_)
    (fun r found => ?_) nofun (fun r _ => rest r) fun r _ used => .inl (kept r used)
  · rw [there]
    exact locking
  · rw [there, notBack, noProc]
  · rw [there] at found
    cases found
  · rw [here] at found
    cases found
  · rw [there, notBack] at found
    cases found

theorem Consistent.dispatch (consistent : Consistent slots state) {slot : Nat}
    (here : (state.cpu c).ctx = .scheduler (.locked slot))
    (runnable : (state.proc slot).state = .runnable) :
    Consistent slots
      { state.setProc slot { state.proc slot with state := .running } with
        cpu := update state.cpu c
          { proc := some slot, context := slot, ctx := .thread slot } } := by
  have holds : state.spin.owner (.proc slot) = some c := by
    rw [consistent.owner c _ rfl, here]
    exact List.mem_singleton_self _
  have notRunning : (state.proc slot).state ≠ .running := by
    rw [runnable]
    exact nofun
  have idle : ∀ d, (state.cpu d).ctx ≠ .thread slot := fun d =>
    consistent.not_thread holds notRunning (by rw [here]; exact nofun)
  have resumable := (consistent.parked slot idle).resumable (.inr (.inl runnable))
  have other : ∀ {r}, some slot ≠ some r →
      (state.setProc slot { state.proc slot with state := .running }).proc r = state.proc r :=
    fun different => setProc_proc_of_ne _ _ fun equal => different (congrArg some equal.symm)
  refine consistent.turn (some slot) rfl ?_ rfl (fun r found => ?_) (fun r found => ?_)
    (fun r found => found) ?_ (fun r different => ?_) (fun r different used => ?_)
  · refine ⟨consistent.counted, fun _ _ _ => Iff.rfl, fun lk internal => ?_,
      fun r held => consistent.bounded_owner held⟩
    have locks : ({ state.proc slot with state := .running } : Proc).locks slot = [.proc slot] :=
      Proc.Resumable.locks resumable slot
    rw [Ctx.locks, setProc_proc_self, locks]
    refine (consistent.owner c lk internal).trans ?_
    rw [here, Ctx.locks, SchedPc.locks]
  · exact Ctx.thread.inj found
  · rw [here] at found
    cases found
  · intro r isMine
    cases isMine
    refine ⟨fun d different found => ?_, consistent.bounded_owner holds, by simp [runnable],
      fun _ => ?_, fun impossible => absurd rfl impossible, ?_, fun child found => ?_⟩
    · rcases Ctx.proc_eq_some.mp found with running | returning
      · exact idle d running
      · exact different (Option.some.inj ((consistent.lock_of_back returning).symm.trans holds))
    · rw [setProc_proc_self]
      exact (Proc.Resumable.threadState resumable).symm
    · rw [setProc_proc_self]
      exact consistent.interrupted slot
    · rw [setProc_proc_self] at found
      rcases consistent.child slot child found with ⟨bound, used⟩
      have ne : child ≠ slot := by
        intro equal
        rw [equal, runnable] at used
        cases used
      rw [setProc_proc_of_ne _ _ ne]
      exact ⟨bound, used, .inl found⟩
  · rw [other different]
    exact .inl (Proc.Same.refl _)
  · rw [other different]
    exact .inl used

theorem Schedules.consistent (schedules : Schedules slots state c pc after)
    (consistent : Consistent slots state) (here : (state.cpu c).ctx = .scheduler pc) :
    Consistent slots after := by
  have now : (state.cpu c).ctx.locks state.proc = pc.locks := by rw [here, Ctx.locks]
  have untouched : ∀ r, Touched state c r (state.proc r) := fun _ => .inl (Proc.Same.refl _)
  have noProc : (Ctx.scheduler pc).proc = none → (state.cpu c).proc = none := by
    intro none
    rw [consistent.current c, here]
    exact none
  cases schedules with
  | lock inside available | wakeLock inside available =>
    exact consistent.schedule here rfl rfl (noProc rfl) rfl
      (.take consistent now rfl available (by simpa using inside) (by simp [SchedPc.locks]))
      untouched fun _ used => used
  | again =>
    exact consistent.schedule here rfl rfl (noProc rfl) rfl
      (.same consistent now rfl fun _ _ => Iff.rfl) untouched fun _ used => used
  | interrupt available =>
    exact consistent.schedule here rfl rfl (noProc rfl) rfl
      (.take consistent now rfl available (fun _ equal => by cases equal) (by
        intro lk internal
        cases lk <;> simp_all [SchedPc.locks, Lock.internal]))
      untouched fun _ used => used
  | dispatch runnable => exact consistent.dispatch here runnable
  | skip holds =>
    exact consistent.schedule here rfl rfl (noProc rfl) rfl
      (.drop consistent now rfl holds (by simp [SchedPc.locks])) untouched fun _ used => used
  | finish holds =>
    exact consistent.schedule here rfl rfl rfl rfl
      (.drop consistent now rfl holds (by simp [SchedPc.locks])) untouched fun _ used => used
  | wakeReturn outside holds =>
    exact consistent.schedule here rfl rfl (noProc rfl) rfl
      (.drop consistent now rfl holds (by
        intro lk internal
        cases lk <;> simp_all [SchedPc.locks, Lock.internal]))
      untouched fun _ used => used
  | @wakeSlot chan lk slot resume holds =>
    refine consistent.schedule here (by rfl) (by rfl) (by exact noProc rfl) (by rfl)
      (.drop consistent now (by rfl) holds (by simp [SchedPc.locks])) ?_ ?_
    · intro r
      by_cases same : r = slot
      · subst same
        rw [setCtx_proc, setProc_proc_self]
        exact wakeProc_touched consistent _ holds (by rw [here]; intro equal; cases equal)
      · rw [setCtx_proc, setProc_proc_of_ne _ _ same]
        exact untouched r
    · intro r used
      by_cases same : r = slot
      · subst same
        rw [setCtx_proc, setProc_proc_self]
        exact wakeProc_used used
      · rw [setCtx_proc, setProc_proc_of_ne _ _ same]
        exact used

variable {cpus : Nat}

theorem step_consistent (consistent : Consistent slots state)
    (stepEq : step slots cpus state label = .next after) : Consistent slots after := by
  rcases step_cases stepEq with
    ⟨pc, here, schedules⟩ | ⟨p, here, yields | switches | ⟨awake, moves⟩⟩
  · exact schedules.consistent consistent here
  · exact consistent.move here (yields.effect consistent here)
  · exact switches.consistent consistent here
  · exact consistent.move here (moves.effect consistent here awake rfl)

theorem boot_consistent (slots : Nat) : Consistent slots boot where
  counted := Spinlocks.counted_initlock
  owner c lk _ := by simp [boot, Spinlocks.initlock, Ctx.locks, SchedPc.locks]
  current _ := rfl
  context _ _ := nofun
  thread _ _ := nofun
  unique _ _ _ := nofun
  back _ _ _ := nofun
  parked p _ := by
    by_cases first : p = initproc <;> constructor <;> simp [boot, first, Proc.Resumable, Pc.locks]
  interrupted p yields := by
    by_cases first : p = initproc <;> simp [boot, first] at yields
  outside p _ := by
    by_cases first : p = initproc <;> simp [boot, first]
  bounded p := by simp [boot, Spinlocks.initlock]
  child p slot found := by
    by_cases first : p = initproc <;> simp [boot, first, Pc.child] at found
  onlyChild p _ slot found := by
    by_cases first : p = initproc <;> simp [boot, first, Pc.child] at found

theorem run_consistent (run : Steps (step slots cpus) boot labels state) : Consistent slots state :=
  run.invariant (fun _ _ _ consistent stepEq => step_consistent consistent stepEq)
    (boot_consistent slots)

end Steps

/-- No two CPUs have the same `c->proc`; while `p->lock` is free, `p` is RUNNING
exactly when one CPU has it as its process; and no CPU is on the kernel stack of
a process that is not RUNNING and whose lock is free. -/
theorem runs_on_one_cpu {slots cpus : Nat} {labels : List (Nat × Choice)} {state : State}
    (run : Steps (step slots cpus) boot labels state) :
    (∀ p c d, (state.cpu c).proc = some p → (state.cpu d).proc = some p → c = d) ∧
    (∀ p, state.spin.owner (.proc p) = none →
      ((state.proc p).state = .running ↔ ∃! c, (state.cpu c).proc = some p)) ∧
    ∀ p c, state.spin.owner (.proc p) = none → (state.proc p).state ≠ .running →
      (state.cpu c).ctx ≠ .thread p := by
  have consistent := run_consistent run
  have only : ∀ p c d, (state.cpu c).proc = some p → (state.cpu d).proc = some p → c = d := by
    intro p c d first second
    rw [consistent.current] at first second
    rcases Ctx.proc_eq_some.mp first with running | returning <;>
      rcases Ctx.proc_eq_some.mp second with alsoRunning | alsoReturning
    · exact consistent.unique c d p running alsoRunning
    · exact absurd running (consistent.back d c p alsoReturning)
    · exact absurd alsoRunning (consistent.back c d p returning)
    · exact Option.some.inj
        ((consistent.lock_of_back returning).symm.trans (consistent.lock_of_back alsoReturning))
  have stack : ∀ p c, state.spin.owner (.proc p) = none → (state.proc p).state ≠ .running →
      (state.cpu c).ctx ≠ .thread p := by
    intro p c free notRunning here
    rw [consistent.lock_of_thread here notRunning] at free
    cases free
  refine ⟨only, fun p free => ⟨?_, ?_⟩, stack⟩
  · intro running
    have somewhere : ∃ c, (state.cpu c).ctx = .thread p := by
      by_contra nowhere
      exact (consistent.parked p (not_exists.mp nowhere)).notRunning running
    rcases somewhere with ⟨c, here⟩
    have current : (state.cpu c).proc = some p := by
      rw [consistent.current c, here]
      rfl
    exact ⟨c, current, fun d other => only p d c other current⟩
  · intro ⟨c, current, _⟩
    by_contra notRunning
    rcases Ctx.proc_eq_some.mp ((consistent.current c).symm.trans current) with
      running | returning
    · exact stack p c free notRunning running
    · rw [consistent.lock_of_back returning] at free
      cases free

/-- CPU 0 runs `init`, which is interrupted and goes on on CPU 1. -/
def migration : List (Nat × Choice) :=
  [(0, .proceed), (0, .proceed), (0, .proceed), (0, .timer), (0, .proceed), (0, .proceed),
    (0, .proceed), (1, .proceed), (1, .proceed), (1, .proceed)]

theorem runs_on_one_cpu_migration : ∃ state,
    Steps (step 2 2) boot migration state ∧
    (∀ p c d, (state.cpu c).proc = some p → (state.cpu d).proc = some p → c = d) ∧
    (∀ p, state.spin.owner (.proc p) = none →
      ((state.proc p).state = .running ↔ ∃! c, (state.cpu c).proc = some p)) ∧
    ∀ p c, state.spin.owner (.proc p) = none → (state.proc p).state ≠ .running →
      (state.cpu c).ctx ≠ .thread p := by
  have ran := Outcome.eq_next_of_isNext boot
    (show (runSteps (step 2 2) boot migration).isNext = true by decide +kernel)
  have run := steps_iff_runSteps.mpr ran
  exact ⟨_, run, runs_on_one_cpu run⟩

end Xv6.Sched
