import Xv6.Virtio.Descriptors

/-! # Threads and descriptor chains

Which thread holds `vdisk_lock`, and that the descriptors that are not free are
the chains of the threads between `alloc3_desc` and `free_chain`. -/

namespace Xv6.Virtio

open State
open Function (update update_self update_of_ne update_apply)

/-- What a step can do, one rule for each step of the driver and the device. -/
inductive Moves (state : State) : State → Prop
  | lockBuf {p b} (available : state.buflock b = none) :
      Moves state { state with buflock := update state.buflock b (some p) }
  | unlockBuf {p b} (idle : (state.proc p).pc = .idle) (holds : state.buflock b = some p) :
      Moves state { state with buflock := update state.buflock b none }
  | rw {p b blockno write} (idle : (state.proc p).pc = .idle)
      (holds : state.buflock b = some p) : Moves state (callRw state p b blockno write)
  | interrupt {p} (idle : (state.proc p).pc = .idle) : Moves state (state.setPc p .intrAcquire)
  | kill {p} : Moves state { state with
      proc := update state.proc p { state.proc p with asleep := none } }
  | acquire {p req} (atPc : (state.proc p).pc = .acquire req) (available : state.lock = none) :
      Moves state ((state.setLock (some p)).setPc p (.alloc req))
  | allocate {p req idx middle} (atPc : (state.proc p).pc = .alloc req)
      (allocated : Allocated state middle (some idx)) :
      Moves state (middle.setPc p (.format req idx))
  | allocFail {p req middle} (atPc : (state.proc p).pc = .alloc req)
      (allocated : Allocated state middle none) : Moves state (middle.sleep p .free (.acquire req))
  | format {p req idx} (atPc : (state.proc p).pc = .format req idx) :
      Moves state ((formatChain state req idx).setPc p (.ring req idx))
  | ring {p req idx} (atPc : (state.proc p).pc = .ring req idx) :
      Moves state ((writeRing state idx.head).setPc p (.publish req idx))
  | publish {p req idx} (atPc : (state.proc p).pc = .publish req idx) :
      Moves state (((bumpAvail state).setPc p (.wait req idx)).record (.published req))
  | waitSleep {p req idx} (atPc : (state.proc p).pc = .wait req idx) :
      Moves state (state.sleep p (.buf req.b) (.reacquire req idx))
  | waitDone {p req idx} (atPc : (state.proc p).pc = .wait req idx)
      (done : state.bdisk req.b = false) : Moves state (state.setPc p (.finish req idx))
  | reacquire {p req idx} (atPc : (state.proc p).pc = .reacquire req idx)
      (available : state.lock = none) :
      Moves state ((state.setLock (some p)).setPc p (.wait req idx))
  | finish {p req idx middle} (atPc : (state.proc p).pc = .finish req idx)
      (freed : freeChain num (forget state idx.head) idx.head = .next middle) :
      Moves state (((middle.setLock none).setPc p .idle).record (.returned req))
  | intrAcquire {p} (atPc : (state.proc p).pc = .intrAcquire) (available : state.lock = none) :
      Moves state ((state.setLock (some p)).setPc p .intr)
  | intrReturn {p} (atPc : (state.proc p).pc = .intr)
      (handled : state.disk.usedIdx = state.disk.used.idx) :
      Moves state ((state.setLock none).setPc p .idle)
  | intrEntry {id} (more : state.disk.usedIdx ≠ state.disk.used.idx)
      (entry : state.disk.used.ring (state.disk.usedIdx.toNat % num) = id) :
      Moves state ((bumpUsed (clearBuf state (state.disk.info id).b)).record
        (.cleared (state.request id) (state.disk.info id).b))
  | take {head} (more : state.device.seen ≠ state.disk.avail.idx)
      (entry : state.disk.avail.ring (state.device.seen.toNat % num) = head) :
      Moves state (taken state head)
  | complete {head} (member : head ∈ state.device.inflight) : Moves state (completed state head)

section Inversion

variable {state after : State} {p : Nat}

theorem proceed_moves (stepEq : proceed state p = .next after) : Moves state after := by
  rw [proceed] at stepEq
  split at stepEq
  · cases stepEq
  · rename_i req atPc
    split at stepEq
    · rename_i available
      cases stepEq
      exact .acquire atPc available
    · cases stepEq
  · rename_i req atPc
    rcases alloc3Desc_spec state with ⟨middle, idx, result, allocated⟩
    rw [result] at stepEq
    cases idx with
    | some idx =>
      cases stepEq
      exact .allocate atPc allocated
    | none =>
      cases stepEq
      exact .allocFail atPc allocated
  · rename_i req idx atPc
    cases stepEq
    exact .format atPc
  · rename_i req idx atPc
    cases stepEq
    exact .ring atPc
  · rename_i req idx atPc
    cases stepEq
    exact .publish atPc
  · rename_i req idx atPc
    split at stepEq
    · cases stepEq
      exact .waitSleep atPc
    · rename_i done
      cases stepEq
      exact .waitDone atPc (Bool.eq_false_iff.mpr done)
  · rename_i req idx atPc
    split at stepEq
    · rename_i available
      cases stepEq
      exact .reacquire atPc available
    · cases stepEq
  · rename_i req idx atPc
    rcases (Outcome.map_eq_next_iff ..).mp stepEq with ⟨middle, freed, rfl⟩
    exact .finish atPc freed
  · rename_i atPc
    split at stepEq
    · rename_i available
      cases stepEq
      exact .intrAcquire atPc available
    · cases stepEq
  · rename_i atPc
    split at stepEq
    · rename_i handled
      cases stepEq
      exact .intrReturn atPc handled
    · rename_i more
      rw [intrEntry] at stepEq
      split at stepEq
      · cases stepEq
      · cases stepEq
        exact .intrEntry more rfl

theorem step_moves (stepEq : step state label = .next after) : Moves state after := by
  cases label with
  | lockBuf p b =>
    simp only [step] at stepEq
    split at stepEq
    · rename_i enabled
      cases stepEq
      exact .lockBuf enabled.2
    · cases stepEq
  | unlockBuf p b =>
    simp only [step] at stepEq
    split at stepEq
    · rename_i enabled
      cases stepEq
      exact .unlockBuf enabled.1 enabled.2
    · cases stepEq
  | rw p b blockno write =>
    simp only [step] at stepEq
    split at stepEq
    · rename_i enabled
      cases stepEq
      exact .rw enabled.1 enabled.2
    · cases stepEq
  | interrupt p =>
    simp only [step] at stepEq
    split at stepEq
    · rename_i idle
      cases stepEq
      exact .interrupt idle
    · cases stepEq
  | proceed p =>
    simp only [step] at stepEq
    split at stepEq
    · exact proceed_moves stepEq
    · cases stepEq
  | kill p =>
    simp only [step] at stepEq
    cases stepEq
    exact .kill
  | take =>
    simp only [step, deviceTake] at stepEq
    split at stepEq
    · cases stepEq
    · rename_i more
      cases stepEq
      exact .take more rfl
  | complete head =>
    simp only [step, deviceComplete] at stepEq
    split at stepEq
    · rename_i member
      cases stepEq
      exact .complete member
    · cases stepEq

end Inversion

/-! ## Places -/

/-- The request of a thread in `virtio_disk_rw`. -/
def Pc.request : Pc → Option Request
  | .acquire req | .alloc req | .format req _ | .ring req _ | .publish req _ | .wait req _
  | .reacquire req _ | .finish req _ => some req
  | .idle | .intrAcquire | .intr => none

/-- The chain that the thread has allocated. -/
def Pc.chain : Pc → Option Chain
  | .format _ idx | .ring _ idx | .publish _ idx | .wait _ idx | .reacquire _ idx
  | .finish _ idx => some idx
  | _ => none

/-- The thread has formatted its chain. -/
def Pc.formatted : Pc → Bool
  | .ring .. | .publish .. | .wait .. | .reacquire .. | .finish .. => true
  | _ => false

/-- The thread holds `vdisk_lock`. -/
def Pc.holds : Pc → Bool
  | .idle | .acquire _ | .reacquire .. | .intrAcquire => false
  | _ => true

/-- After a step the thread `p` is at `pc` and the others are where they were. -/
structure At (state after : State) (p : Nat) (pc : Pc) : Prop where
  self : (after.proc p).pc = pc
  rest : ∀ q, q ≠ p → (after.proc q).pc = (state.proc q).pc

section At

variable {state middle after : State} {p : Nat} {pc : Pc}

theorem At.of_update {proc : Proc} (procs : after.proc = update state.proc p proc) :
    At state after p proc.pc where
  self := by rw [procs, update_self]
  rest q different := by rw [procs, update_of_ne different]

theorem At.of_setPc
    (procs : after.proc = update state.proc p { state.proc p with pc := pc }) :
    At state after p pc :=
  .of_update procs

theorem At.trans (pcs : ∀ q, (middle.proc q).pc = (state.proc q).pc)
    (moved : At middle after p pc) : At state after p pc where
  self := moved.self
  rest q different := (moved.rest q different).trans (pcs q)

end At

/-! ## Locks -/

structure Threads (state : State) : Prop where
  holder : ∀ p, state.lock = some p ↔ (state.proc p).pc.holds = true
  buffer : ∀ p req, (state.proc p).pc.request = some req → state.buflock req.b = some p
  number : ∀ p req, (state.proc p).pc.request = some req → req.number < state.calls
  distinct : ∀ p q req other, (state.proc p).pc.request = some req →
    (state.proc q).pc.request = some other → req.number = other.number → p = q

section Threads

variable {state after : State} {p : Nat} {pc : Pc}

theorem Threads.same_buffer (threads : Threads state) (mine : (state.proc p).pc.request = some req)
    (theirs : (state.proc q).pc.request = some other) (equal : req.b = other.b) : p = q := by
  have first := threads.buffer p req mine
  have second := threads.buffer q other theirs
  rw [equal, second] at first
  exact (Option.some.inj first).symm

theorem Threads.pcs (threads : Threads state)
    (pcs : ∀ q, (after.proc q).pc = (state.proc q).pc) (lock : after.lock = state.lock)
    (buflock : ∀ q req, (state.proc q).pc.request = some req →
      after.buflock req.b = state.buflock req.b) (calls : after.calls = state.calls) :
    Threads after where
  holder q := by
    rw [pcs, lock]
    exact threads.holder q
  buffer q req requests := by
    rw [pcs] at requests
    rw [buflock q req requests]
    exact threads.buffer q req requests
  number q req requests := by
    rw [pcs] at requests
    rw [calls]
    exact threads.number q req requests
  distinct q r req other first second := by
    rw [pcs] at first second
    exact threads.distinct q r req other first second

theorem Threads.goto (threads : Threads state) (moved : At state after p pc)
    (lock : (pc.holds = true ∧ after.lock = some p ∧
        (state.lock = none ∨ state.lock = some p)) ∨
      (pc.holds = false ∧ after.lock = none ∧ state.lock = some p) ∨
      (pc.holds = false ∧ after.lock = state.lock ∧ state.lock ≠ some p))
    (buflock : after.buflock = state.buflock) (calls : state.calls ≤ after.calls)
    (request : ∀ req, pc.request = some req → (state.proc p).pc.request = some req ∨
      (state.buflock req.b = some p ∧ req.number = state.calls ∧
        req.number < after.calls)) : Threads after := by
  have number : ∀ q req, (after.proc q).pc.request = some req →
      ((state.proc q).pc.request = some req ∨
        (q = p ∧ state.buflock req.b = some p ∧ req.number = state.calls ∧
          req.number < after.calls)) := by
    intro q req requests
    by_cases same : q = p
    · subst same
      rw [moved.self] at requests
      rcases request req requests with old | new
      · exact .inl old
      · exact .inr ⟨rfl, new⟩
    · rw [moved.rest q same] at requests
      exact .inl requests
  constructor
  · intro q
    by_cases same : q = p
    · subst same
      rw [moved.self]
      rcases lock with ⟨holds, now, _⟩ | ⟨free, now, _⟩ | ⟨free, now, before⟩
      · exact iff_of_true now holds
      · rw [now, free]
        exact iff_of_false nofun nofun
      · rw [now, free]
        exact iff_of_false before nofun
    · rw [moved.rest q same, ← threads.holder q]
      rcases lock with ⟨_, now, before⟩ | ⟨_, now, before⟩ | ⟨_, now, _⟩
      · rw [now]
        refine iff_of_false (fun equal => same (Option.some.inj equal).symm) fun holds => ?_
        rcases before with none | mine
        · rw [none] at holds
          cases holds
        · rw [mine] at holds
          exact same (Option.some.inj holds).symm
      · rw [now, before]
        exact iff_of_false nofun fun equal => same (Option.some.inj equal).symm
      · rw [now]
  · intro q req requests
    rw [buflock]
    rcases number q req requests with old | ⟨same, holds, _⟩
    · exact threads.buffer q req old
    · rw [same]
      exact holds
  · intro q req requests
    rcases number q req requests with old | ⟨_, _, _, bound⟩
    · exact Nat.lt_of_lt_of_le (threads.number q req old) calls
    · exact bound
  · intro q r req other first second equal
    rcases number q req first with old | ⟨same, _, fresh, _⟩ <;>
      rcases number r other second with oldOther | ⟨sameOther, _, freshOther, _⟩
    · exact threads.distinct q r req other old oldOther equal
    · have bound := threads.number q req old
      omega
    · have bound := threads.number r other oldOther
      omega
    · exact same.trans sameOther.symm

theorem Threads.mine (threads : Threads state) (atPc : (state.proc p).pc = pc)
    (holds : pc.holds = true) : state.lock = some p := by
  rw [threads.holder, atPc]
  exact holds

theorem Threads.not_mine (threads : Threads state) (atPc : (state.proc p).pc = pc)
    (free : pc.holds = false) : state.lock ≠ some p := by
  rw [Ne, threads.holder, atPc, free]
  exact nofun

end Threads

/-! ## Chains -/

/-- The thread has formatted the chain `idx` for its request. -/
structure Pc.Formatted (pc : Pc) (req : Request) (idx : Chain) : Prop where
  request : pc.request = some req
  chain : pc.chain = some idx
  formatted : pc.formatted = true

/-- The descriptors of a chain are linked, its last one points to the status of
its head, and the head belongs to the request. -/
structure Linked (state : State) (req : Request) (idx : Chain) : Prop where
  first : (state.disk.desc idx.head).flags &&& flagNext ≠ 0
  data : (state.disk.desc idx.head).next = idx.data
  second : (state.disk.desc idx.data).flags &&& flagNext ≠ 0
  status : (state.disk.desc idx.data).next = idx.status
  last : (state.disk.desc idx.status).flags &&& flagNext = 0
  addr : (state.disk.desc idx.status).addr = .status idx.head
  b : (state.disk.info idx.head).b = some req.b
  request : state.request idx.head = req

structure Chains (state : State) : Prop where
  owned : ∀ i < num, state.disk.free i = false ↔
    ∃ p idx, (state.proc p).pc.chain = some idx ∧ i ∈ idx.toList
  valid : ∀ p idx, (state.proc p).pc.chain = some idx → idx.toList.Nodup ∧ ∀ i ∈ idx.toList, i < num
  disjoint : ∀ p q idx other i, (state.proc p).pc.chain = some idx →
    (state.proc q).pc.chain = some other → i ∈ idx.toList → i ∈ other.toList → p = q
  linked : ∀ p req idx, (state.proc p).pc.Formatted req idx → Linked state req idx

section Chains

variable {state after : State} {p : Nat} {pc : Pc}

variable {idx : Chain} {req : Request}

theorem Linked.congr (linked : Linked state req idx)
    (desc : ∀ i ∈ idx.toList, after.disk.desc i = state.disk.desc i)
    (b : (after.disk.info idx.head).b = (state.disk.info idx.head).b)
    (request : after.request idx.head = state.request idx.head) : Linked after req idx := by
  have head := desc idx.head (by simp [Chain.toList])
  have data := desc idx.data (by simp [Chain.toList])
  have status := desc idx.status (by simp [Chain.toList])
  constructor
  · rw [head]; exact linked.first
  · rw [head]; exact linked.data
  · rw [data]; exact linked.second
  · rw [data]; exact linked.status
  · rw [status]; exact linked.last
  · rw [status]; exact linked.addr
  · rw [b]; exact linked.b
  · rw [request]; exact linked.request

section

variable (chains : Chains state)

include chains

theorem Chains.busy (mine : (state.proc p).pc.chain = some idx) (member : i ∈ idx.toList) :
    i < num ∧ state.disk.free i = false := by
  have bound := (chains.valid p idx mine).2 i member
  exact ⟨bound, (chains.owned i bound).mpr ⟨p, idx, mine, member⟩⟩

theorem Chains.keep (chain : ∀ q, (after.proc q).pc.chain = (state.proc q).pc.chain)
    (free : after.disk.free = state.disk.free)
    (linked : ∀ q req idx, (after.proc q).pc.Formatted req idx → Linked after req idx) :
    Chains after where
  owned i bound := by
    rw [free, chains.owned i bound]
    simp only [chain]
  valid q idx mine := chains.valid q idx (chain q ▸ mine)
  disjoint q r idx other i first second :=
    chains.disjoint q r idx other i (chain q ▸ first) (chain r ▸ second)
  linked := linked

theorem Chains.quiet (chain : ∀ q, (after.proc q).pc.chain = (state.proc q).pc.chain)
    (formatted : ∀ q req idx, (after.proc q).pc.Formatted req idx →
      (state.proc q).pc.Formatted req idx) (free : after.disk.free = state.disk.free)
    (desc : ∀ i, state.disk.free i = false → after.disk.desc i = state.disk.desc i)
    (b : ∀ i, (after.disk.info i).b = (state.disk.info i).b)
    (request : after.request = state.request) : Chains after := by
  apply chains.keep chain free
  intro q req idx now
  have before := formatted q req idx now
  apply (chains.linked q req idx before).congr _ (b idx.head) (by rw [request])
  exact fun i member => desc i (chains.busy before.chain member).2

theorem Chains.goto (moved : At state after p pc) (chain : pc.chain = (state.proc p).pc.chain)
    (formatted : ∀ req idx, pc.Formatted req idx → (state.proc p).pc.Formatted req idx)
    (free : after.disk.free = state.disk.free)
    (desc : ∀ i, state.disk.free i = false → after.disk.desc i = state.disk.desc i)
    (b : ∀ i, (after.disk.info i).b = (state.disk.info i).b)
    (request : after.request = state.request) : Chains after := by
  refine chains.quiet ?_ ?_ free desc b request
  · intro q
    by_cases same : q = p
    · rw [same, moved.self, chain]
    · rw [moved.rest q same]
  · intro q req idx now
    by_cases same : q = p
    · rw [same, moved.self] at now
      rw [same]
      exact formatted req idx now
    · rw [moved.rest q same] at now
      exact now

theorem Chains.freeChain_eq (atPc : (state.proc p).pc = .finish req idx) :
    freeChain num (forget state idx.head) idx.head =
      .next ((forget state idx.head).releaseAll idx.toList) := by
  have mine : (state.proc p).pc.chain = some idx := by rw [atPc]; rfl
  have linked := chains.linked p req idx (by rw [atPc]; exact ⟨rfl, rfl, rfl⟩)
  exact freeChain_eq_next (chains.valid p idx mine).1
    (fun i member => chains.busy mine member) linked.first linked.data linked.second
    linked.status linked.last

end

theorem clearBuf_fields (state : State) (b : Option Nat) :
    (clearBuf state b).disk = state.disk ∧ (clearBuf state b).buflock = state.buflock ∧
      (clearBuf state b).lock = state.lock ∧ (clearBuf state b).device = state.device ∧
      (clearBuf state b).calls = state.calls ∧ (clearBuf state b).request = state.request ∧
      (clearBuf state b).history = state.history ∧
      ∀ p, ((clearBuf state b).proc p).pc = (state.proc p).pc := by
  cases b with
  | none => exact ⟨rfl, rfl, rfl, rfl, rfl, rfl, rfl, fun _ => rfl⟩
  | some b => exact ⟨rfl, rfl, rfl, rfl, rfl, rfl, rfl, wakeup_pc _ (.buf b)⟩

theorem kill_pc (state : State) (p q : Nat) :
    (update state.proc p { state.proc p with asleep := none } q).pc = (state.proc q).pc := by
  by_cases same : q = p
  · rw [same, update_self]
  · rw [update_of_ne same]

theorem writeStatus_b (state : State) (head i : Nat) :
    (writeStatus state head i).b = (state.disk.info i).b := by
  rw [writeStatus]
  cases (state.disk.desc (state.disk.desc (state.disk.desc head).next).next).addr with
  | status target =>
    by_cases same : i = target
    · subst same
      simp
    · simp [same]
  | _ => rfl

theorem Moves.threads (moves : Moves state after) (threads : Threads state)
    (chains : Chains state) : Threads after := by
  cases moves with
  | @lockBuf p b available =>
    refine threads.pcs (fun _ => rfl) rfl (fun q req requests => ?_) rfl
    have holds := threads.buffer q req requests
    refine update_of_ne (fun equal => ?_) ..
    rw [equal, available] at holds
    cases holds
  | @unlockBuf p b idle holds =>
    refine threads.pcs (fun _ => rfl) rfl (fun q req requests => ?_) rfl
    have theirs := threads.buffer q req requests
    refine update_of_ne (fun equal => ?_) ..
    rw [equal, holds] at theirs
    cases theirs
    rw [idle] at requests
    cases requests
  | rw idle holds =>
    refine threads.goto (.of_update rfl) (.inr (.inr ⟨rfl, rfl, threads.not_mine idle rfl⟩)) rfl
      (Nat.le_succ _) fun req requests => .inr ?_
    cases requests
    exact ⟨holds, rfl, Nat.lt_succ_self _⟩
  | interrupt idle =>
    exact threads.goto (.of_update rfl) (.inr (.inr ⟨rfl, rfl, threads.not_mine idle rfl⟩)) rfl
      (Nat.le_refl _) fun _ => nofun
  | @kill p => exact threads.pcs (kill_pc state p) rfl (fun _ _ _ => rfl) rfl
  | acquire atPc available | reacquire atPc available =>
    exact threads.goto (.of_update rfl) (.inl ⟨rfl, rfl, .inl available⟩) rfl (Nat.le_refl _)
      fun req requests => .inl (by rw [atPc]; exact requests)
  | intrAcquire atPc available =>
    exact threads.goto (.of_update rfl) (.inl ⟨rfl, rfl, .inl available⟩) rfl (Nat.le_refl _)
      fun _ => nofun
  | allocate atPc allocated =>
    cases allocated
    exact threads.goto (.of_update rfl)
      (.inl ⟨rfl, threads.mine atPc rfl, .inr (threads.mine atPc rfl)⟩) rfl (Nat.le_refl _)
      fun req requests => .inl (by rw [atPc]; exact requests)
  | allocFail atPc allocated =>
    cases allocated with
    | failed same =>
      exact threads.goto (.trans same.pc (.of_update rfl))
        (.inr (.inl ⟨rfl, rfl, threads.mine atPc rfl⟩)) same.buflock
        (Nat.le_of_eq same.calls.symm) fun req requests => .inl (by rw [atPc]; exact requests)
  | format atPc | ring atPc | publish atPc | waitDone atPc =>
    exact threads.goto (.of_update rfl)
      (.inl ⟨rfl, threads.mine atPc rfl, .inr (threads.mine atPc rfl)⟩) rfl (Nat.le_refl _)
      fun req requests => .inl (by rw [atPc]; exact requests)
  | waitSleep atPc =>
    exact threads.goto (.of_update rfl) (.inr (.inl ⟨rfl, rfl, threads.mine atPc rfl⟩)) rfl
      (Nat.le_refl _) fun req requests => .inl (by rw [atPc]; exact requests)
  | @finish p req idx middle atPc freed =>
    rw [chains.freeChain_eq atPc] at freed
    cases freed
    have same : Same (forget state idx.head) _ := releaseAll_same _ idx.toList
    exact threads.goto (.trans same.pc (.of_update rfl))
      (.inr (.inl ⟨rfl, rfl, threads.mine atPc rfl⟩)) same.buflock
      (Nat.le_of_eq same.calls.symm) fun _ => nofun
  | intrReturn atPc =>
    exact threads.goto (.of_update rfl) (.inr (.inl ⟨rfl, rfl, threads.mine atPc rfl⟩)) rfl
      (Nat.le_refl _) fun _ => nofun
  | intrEntry =>
    rcases clearBuf_fields state _ with ⟨_, buflock, lock, _, calls, _, _, pcs⟩
    exact threads.pcs pcs lock (fun _ req _ => congrFun buflock req.b) calls
  | take | complete => exact threads.pcs (fun _ => rfl) rfl (fun _ _ _ => rfl) rfl

theorem Chains.allocate (chains : Chains state) {req : Request} {idx : Chain}
    (atPc : (state.proc p).pc = .alloc req) (distinct : idx.toList.Nodup)
    (available : ∀ i ∈ idx.toList, i < num ∧ state.disk.free i = true)
    (moved : At state after p (.format req idx))
    (free : ∀ i, after.disk.free i = false ↔ i ∈ idx.toList ∨ state.disk.free i = false)
    (desc : after.disk.desc = state.disk.desc) (info : after.disk.info = state.disk.info)
    (request : after.request = state.request) : Chains after := by
  have none : (state.proc p).pc.chain = none := by rw [atPc]; rfl
  have fresh : ∀ {q other i}, (state.proc q).pc.chain = some other → i ∈ other.toList →
      i ∉ idx.toList := by
    intro q other i theirs member mine
    have busy := (chains.busy theirs member).2
    rw [(available i mine).2] at busy
    cases busy
  have chain : ∀ q other, (after.proc q).pc.chain = some other →
      (q = p ∧ other = idx) ∨ (state.proc q).pc.chain = some other := by
    intro q other found
    by_cases same : q = p
    · rw [same, moved.self] at found
      exact .inl ⟨same, (Option.some.inj found).symm⟩
    · rw [moved.rest q same] at found
      exact .inr found
  constructor
  · intro i bound
    rw [free, chains.owned i bound]
    constructor
    · intro taken
      rcases taken with mine | ⟨q, other, theirs, member⟩
      · exact ⟨p, idx, by rw [moved.self]; rfl, mine⟩
      · have different : q ≠ p := by
          intro same
          rw [same, none] at theirs
          cases theirs
        exact ⟨q, other, by rw [moved.rest q different]; exact theirs, member⟩
    · intro ⟨q, other, found, member⟩
      rcases chain q other found with ⟨_, equal⟩ | theirs
      · exact .inl (equal ▸ member)
      · exact .inr ⟨q, other, theirs, member⟩
  · intro q other found
    rcases chain q other found with ⟨_, equal⟩ | theirs
    · rw [equal]
      exact ⟨distinct, fun i member => (available i member).1⟩
    · exact chains.valid q other theirs
  · intro q r first second i foundFirst foundSecond inFirst inSecond
    rcases chain q first foundFirst with ⟨qEq, firstEq⟩ | theirsFirst <;>
      rcases chain r second foundSecond with ⟨rEq, secondEq⟩ | theirsSecond
    · exact qEq.trans rEq.symm
    · exact absurd (firstEq ▸ inFirst) (fresh theirsSecond inSecond)
    · exact absurd (secondEq ▸ inSecond) (fresh theirsFirst inFirst)
    · exact chains.disjoint q r first second i theirsFirst theirsSecond inFirst inSecond
  · intro q other chainOf formatted
    have different : q ≠ p := by
      intro same
      rw [same, moved.self] at formatted
      cases formatted.formatted
    rw [moved.rest q different] at formatted
    exact (chains.linked q other chainOf formatted).congr (fun i _ => by rw [desc])
      (by rw [info]) (by rw [request])

theorem Chains.format (chains : Chains state) {req : Request} {idx : Chain}
    (atPc : (state.proc p).pc = .format req idx) :
    Chains ((formatChain state req idx).setPc p (.ring req idx)) := by
  have moved : At state ((formatChain state req idx).setPc p (.ring req idx)) p (.ring req idx) :=
    .of_setPc rfl
  have mine : (state.proc p).pc.chain = some idx := by rw [atPc]; rfl
  have distinct := (chains.valid p idx mine).1
  simp only [Chain.toList, List.nodup_cons, List.mem_cons, List.not_mem_nil, or_false,
    not_or, List.nodup_nil, and_true, not_false_eq_true] at distinct
  rcases distinct with ⟨⟨headData, headStatus⟩, dataStatus⟩
  refine chains.keep ?_ rfl ?_
  · intro q
    by_cases same : q = p
    · rw [same, moved.self, mine]
      rfl
    · rw [moved.rest q same]
  · intro q other chainOf formatted
    by_cases same : q = p
    · rw [same, moved.self] at formatted
      rcases formatted with ⟨request, chain, _⟩
      cases request
      cases chain
      constructor <;>
        simp [formatChain, setPc, update_of_ne, headData, headStatus,
          dataStatus, flagNext, flagWrite]
    · rw [moved.rest q same] at formatted
      have apart : ∀ i ∈ chainOf.toList, i ∉ idx.toList := fun i theirs ours =>
        same (chains.disjoint q p chainOf idx i formatted.chain mine theirs ours)
      have outside : ∀ i ∈ chainOf.toList, i ≠ idx.head ∧ i ≠ idx.data ∧ i ≠ idx.status := by
        intro i member
        have other := apart i member
        simpa [Chain.toList] using other
      have head := outside chainOf.head (by simp [Chain.toList])
      apply (chains.linked q other chainOf formatted).congr
      · intro i member
        rcases outside i member with ⟨notHead, notData, notStatus⟩
        simp [formatChain, setPc, notHead, notData, notStatus]
      · simp [formatChain, setPc, head.1]
      · simp [formatChain, setPc, head.1]

theorem Chains.finish (chains : Chains state) {req : Request} {idx : Chain}
    (atPc : (state.proc p).pc = .finish req idx) (moved : At state after p .idle)
    (free : ∀ i, after.disk.free i = true ↔ i ∈ idx.toList ∨ state.disk.free i = true)
    (desc : ∀ i, i ∉ idx.toList → after.disk.desc i = state.disk.desc i)
    (b : ∀ i, i ≠ idx.head → (after.disk.info i).b = (state.disk.info i).b)
    (request : after.request = state.request) : Chains after := by
  have mine : (state.proc p).pc.chain = some idx := by rw [atPc]; rfl
  have chain : ∀ q other, (after.proc q).pc.chain = some other →
      q ≠ p ∧ (state.proc q).pc.chain = some other := by
    intro q other found
    by_cases same : q = p
    · rw [same, moved.self] at found
      cases found
    · rw [moved.rest q same] at found
      exact ⟨same, found⟩
  have apart : ∀ {q other i}, q ≠ p → (state.proc q).pc.chain = some other →
      i ∈ other.toList → i ∉ idx.toList := fun different theirs inOther inMine =>
    different (chains.disjoint _ p _ idx _ theirs mine inOther inMine)
  constructor
  · intro i bound
    rw [← Bool.not_eq_true, free, not_or, Bool.not_eq_true, chains.owned i bound]
    constructor
    · intro ⟨notMine, q, other, theirs, member⟩
      have different : q ≠ p := by
        intro same
        rw [same, mine] at theirs
        cases theirs
        exact notMine member
      exact ⟨q, other, by rw [moved.rest q different]; exact theirs, member⟩
    · intro ⟨q, other, found, member⟩
      rcases chain q other found with ⟨different, theirs⟩
      exact ⟨apart different theirs member, q, other, theirs, member⟩
  · intro q other found
    exact chains.valid q other (chain q other found).2
  · intro q r first second i foundFirst foundSecond
    exact chains.disjoint q r first second i (chain q first foundFirst).2
      (chain r second foundSecond).2
  · intro q other chainOf formatted
    rcases chain q chainOf formatted.chain with ⟨different, theirs⟩
    rw [moved.rest q different] at formatted
    apply (chains.linked q other chainOf formatted).congr
    · exact fun i member => desc i (apart different theirs member)
    · apply b
      intro equal
      have inOther : chainOf.head ∈ chainOf.toList := by simp [Chain.toList]
      have notMine := apart different theirs inOther
      rw [equal] at notMine
      exact notMine (by simp [Chain.toList])
    · rw [request]

theorem Moves.chains (moves : Moves state after) (chains : Chains state) : Chains after := by
  cases moves with
  | lockBuf | unlockBuf | take =>
    exact chains.quiet (fun _ => rfl) (fun _ _ _ now => now) rfl (fun _ _ => rfl) (fun _ => rfl) rfl
  | @kill p =>
    refine chains.quiet (fun q => ?_) (fun q req idx now => ?_) rfl (fun _ _ => rfl)
      (fun _ => rfl) rfl
    · rw [kill_pc]
    · rw [kill_pc] at now
      exact now
  | @complete head =>
    exact chains.quiet (fun _ => rfl) (fun _ _ _ now => now) rfl (fun _ _ => rfl)
      (writeStatus_b state head) rfl
  | @intrEntry id =>
    rcases clearBuf_fields state (state.disk.info id).b with
      ⟨disk, _, _, _, _, request, _, pcs⟩
    refine chains.quiet (fun q => congrArg Pc.chain (pcs q)) (fun q req idx now => ?_)
      (congrArg Disk.free disk :) (fun i _ => congrFun (congrArg Disk.desc disk :) i)
      (fun i => congrArg Info.b (congrFun (congrArg Disk.info disk :) i)) request
    exact pcs q ▸ now
  | rw idle | interrupt idle =>
    exact chains.goto (.of_update rfl) (by rw [idle]; rfl) (fun _ _ now => by cases now.formatted)
      rfl (fun _ _ => rfl) (fun _ => rfl) rfl
  | acquire atPc | intrAcquire atPc | intrReturn atPc =>
    exact chains.goto (.of_update rfl) (by rw [atPc]; rfl) (fun _ _ now => by cases now.formatted)
      rfl (fun _ _ => rfl) (fun _ => rfl) rfl
  | ring atPc | publish atPc | waitSleep atPc | waitDone atPc | reacquire atPc =>
    refine chains.goto (.of_update rfl) (by rw [atPc]; rfl) (fun req idx now => ?_)
      rfl (fun _ _ => rfl) (fun _ => rfl) rfl
    rw [atPc]
    exact ⟨now.request, now.chain, rfl⟩
  | @allocate p req idx middle atPc allocated =>
    cases allocated with
    | three idx distinct available =>
      refine chains.allocate atPc distinct available (.of_setPc rfl) (fun i => ?_) rfl rfl rfl
      simp only [setPc, setDisk, update_apply, Chain.toList, List.mem_cons,
        List.not_mem_nil, or_false]
      split
      · simp_all
      · split
        · simp_all
        · split <;> simp_all
  | allocFail atPc allocated =>
    cases allocated with
    | failed same free desc =>
      exact chains.goto (.trans same.pc (.of_update rfl)) (by rw [atPc]; rfl)
        (fun _ _ now => by cases now.formatted) free desc
        (fun i => congrArg Info.b (congrFun same.info i)) same.request
  | format atPc => exact chains.format atPc
  | @finish p req idx middle atPc freed =>
    rw [chains.freeChain_eq atPc] at freed
    cases freed
    have same : Same (forget state idx.head) _ := releaseAll_same _ idx.toList
    refine chains.finish atPc (.trans same.pc (.of_setPc rfl)) (releaseAll_free _ _)
      (fun i other => releaseAll_desc _ _ other) (fun i different => ?_) same.request
    refine (congrArg Info.b (congrFun same.info i)).trans ?_
    simp [forget, setDisk, different]

theorem boot_threads : Threads boot where
  holder _ := iff_of_false nofun nofun
  buffer _ _ := nofun
  number _ _ := nofun
  distinct _ _ _ _ := nofun

theorem boot_chains : Chains boot where
  owned i bound := by
    simp [boot, bound, Pc.chain]
  valid _ _ := nofun
  disjoint _ _ _ _ _ := nofun
  linked _ _ _ formatted := nomatch formatted.formatted

end Chains

end Xv6.Virtio
