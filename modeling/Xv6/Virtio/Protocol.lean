import Xv6.Virtio.Events

/-! # The protocol between driver and device

What holds in every state of every run: of the descriptors, of the slots of the
`avail` ring, of the interrupt handler and of the calls of `virtio_disk_rw`. -/

namespace Xv6.Virtio

open State

/-- The invariant of the driver and the device. -/
structure Good (state : State) : Prop where
  threads : Threads state
  chains : Chains state
  queues : ∃ avail used, Queues state avail used ∧ Recorded state avail used

section Good

variable {state after : State} {p : Nat}

theorem Moves.good (moves : Moves state after) (good : Good state) : Good after where
  threads := moves.threads good.threads good.chains
  chains := moves.chains good.chains
  queues := by
    rcases good.queues with ⟨avail, used, queues, recorded⟩
    exact moves.recorded good.threads good.chains queues recorded

theorem run_good (run : Steps step boot labels state) : Good state :=
  run.invariant (fun _ _ _ good stepEq => (step_moves stepEq).good good)
    ⟨boot_threads, boot_chains, [], [], boot_queues, boot_recorded⟩

/-! ## What a step can change -/

/-- The slots of the `avail` ring that the device has not taken yet. -/
def Untaken (state : State) (slot : Nat) : Prop :=
  ∃ k < (state.disk.avail.idx - state.device.seen).toNat,
    slot = (state.device.seen.toNat + k) % 2 ^ 16 % num

theorem Queues.untaken (queues : Queues state avail used) (untaken : Untaken state slot) :
    ∃ k head, avail[k]? = some head ∧ slot = (state.device.seen.toNat + k) % 2 ^ 16 % num := by
  rcases untaken with ⟨k, bound, rfl⟩
  have difference := queues.availRing.difference (by decide)
  rw [UInt16.toNat_sub, Nat.add_comm, difference] at bound
  exact ⟨k, _, List.getElem?_eq_getElem bound, rfl⟩

section

variable (moves : Moves state after) (good : Good state)

include moves good

theorem Moves.untaken_kept (untaken : Untaken state slot) :
    after.disk.avail.ring slot = state.disk.avail.ring slot := by
  cases moves with
  | lockBuf | unlockBuf | rw | interrupt | kill | acquire | format | publish | waitSleep
  | waitDone | reacquire | intrAcquire | intrReturn | take | complete => rfl
  | allocate atPc allocated =>
    cases allocated
    rfl
  | allocFail atPc allocated =>
    cases allocated with
    | failed same => exact congrFun (congrArg Virtq.ring same.avail) slot
  | @finish p req idx middle atPc freed =>
    rw [good.chains.freeChain_eq atPc] at freed
    cases freed
    have same : Same (forget state idx.head) _ := releaseAll_same _ idx.toList
    exact congrFun (congrArg Virtq.ring same.avail) slot
  | @intrEntry id =>
    rcases clearBuf_fields state (state.disk.info id).b with ⟨disk, _⟩
    exact congrFun (congrArg (fun disk => disk.avail.ring) disk) slot
  | ring atPc =>
    -- the contents of the ring are the same before and after the write
    rcases good.queues with ⟨avail, used, queues, _⟩
    rcases queues.untaken untaken with ⟨k, head, found, rfl⟩
    exact ((queues.ring good.threads good.chains atPc).availRing.cell k head found).trans
      (queues.availRing.cell k head found).symm

theorem Moves.clears (busy : state.bdisk b = true) (clear : after.bdisk b = false) :
    ∃ req, req.b = b ∧ after.history = .cleared req (some b) :: state.history := by
  cases moves with
  | lockBuf | unlockBuf | rw | interrupt | kill | acquire | ring | publish | waitSleep
  | waitDone | reacquire | intrAcquire | intrReturn | take | complete =>
    exact nomatch busy.symm.trans clear
  | allocate atPc allocated =>
    cases allocated
    exact nomatch busy.symm.trans clear
  | allocFail atPc allocated =>
    cases allocated with
    | failed same => exact nomatch (busy.symm.trans (congrFun same.bdisk b).symm).trans clear
  | @format p req idx atPc =>
    have raised : Function.update state.bdisk req.b true b = true := by
      rw [Function.update_apply, busy, ite_self]
    exact nomatch raised.symm.trans clear
  | @finish p req idx middle atPc freed =>
    rw [good.chains.freeChain_eq atPc] at freed
    cases freed
    have same : Same (forget state idx.head) _ := releaseAll_same _ idx.toList
    exact nomatch (busy.symm.trans (congrFun same.bdisk b).symm).trans clear
  | @intrEntry id more entry =>
    rcases good.queues with ⟨avail, used, queues, _⟩
    rcases queues.usedEntry good.chains more with ⟨p, req, idx, rest, _, found, _, linked⟩
    rw [entry] at found
    subst found
    rcases clearBuf_fields state (state.disk.info idx.head).b with
      ⟨_, _, _, _, _, _, history, _⟩
    have equal : req.b = b := by
      by_contra different
      have kept : (clearBuf state (state.disk.info idx.head).b).bdisk b = state.bdisk b := by
        rw [linked.b]
        exact Function.update_of_ne (Ne.symm different) ..
      exact nomatch (busy.symm.trans kept.symm).trans clear
    refine ⟨req, equal, ?_⟩
    rw [← equal, ← linked.b, ← history, ← linked.request]
    rfl

theorem Moves.cleared (records : after.history = .cleared req b :: state.history) :
    b = some req.b ∧ after.bdisk req.b = false ∧
      lastEvent req.number state.history = some (.completed req) := by
  rcases (moves.good good).queues with ⟨_, _, _, recorded⟩
  have ordered := recorded.ordered
  rw [records] at ordered
  rcases ordered.1 with ⟨completed, equal⟩
  refine ⟨equal, ?_, completed⟩
  cases moves with
  | lockBuf | unlockBuf | rw | interrupt | kill | acquire | format | ring | waitSleep
  | waitDone | reacquire | intrAcquire | intrReturn =>
    exact absurd records.symm (List.cons_ne_self _ _)
  | publish | take | complete => cases records
  | allocate atPc allocated =>
    cases allocated
    exact absurd records.symm (List.cons_ne_self _ _)
  | allocFail atPc allocated =>
    cases allocated with
    | failed same => exact absurd (same.history.symm.trans records).symm (List.cons_ne_self _ _)
  | finish => cases (List.cons.inj records).1
  | @intrEntry id =>
    have found : (state.disk.info id).b = some req.b := by
      rw [← equal]
      exact (Event.cleared.inj (List.cons.inj records).1).2
    rw [found]
    exact Function.update_self ..

theorem Moves.returned (inside : (state.proc p).pc.request = some req)
    (leaves : (after.proc p).pc.request ≠ some req) :
    after.history = .returned req :: state.history := by
  have stays : ∀ {q pc}, At state after q pc → (∀ req, (state.proc q).pc.request = some req →
      pc.request = some req) → (after.proc p).pc.request = some req := by
    intro q pc moved keeps
    by_cases same : p = q
    · rw [same, moved.self]
      exact keeps req (same ▸ inside)
    · rw [moved.rest p same]
      exact inside
  cases moves with
  | lockBuf | unlockBuf | take | complete => exact absurd inside leaves
  | kill =>
    rw [kill_pc] at leaves
    exact absurd inside leaves
  | intrEntry =>
    rcases clearBuf_fields state _ with ⟨_, _, _, _, _, _, _, pcs⟩
    exact absurd ((congrArg Pc.request (pcs p)).trans inside) leaves
  | rw atPc | interrupt atPc | intrAcquire atPc | intrReturn atPc =>
    exact absurd (stays (.of_update rfl) (by rw [atPc]; exact nofun)) leaves
  | acquire atPc | format atPc | ring atPc | publish atPc | waitSleep atPc | waitDone atPc
  | reacquire atPc =>
    exact absurd (stays (.of_update rfl) (by rw [atPc]; exact fun _ found => found)) leaves
  | allocate atPc allocated =>
    cases allocated
    exact absurd (stays (.of_update rfl) (by rw [atPc]; exact fun _ found => found)) leaves
  | allocFail atPc allocated =>
    cases allocated with
    | failed same =>
      exact absurd (stays (.trans same.pc (.of_update rfl))
        (by rw [atPc]; exact fun _ found => found)) leaves
  | @finish q other idx middle atPc freed =>
    rw [good.chains.freeChain_eq atPc] at freed
    cases freed
    have same : Same (forget state idx.head) _ := releaseAll_same _ idx.toList
    by_cases equal : p = q
    · rw [equal, atPc] at inside
      cases inside
      exact congrArg (_ :: ·) same.history
    · have stays := Function.update_of_ne equal
        { ((forget state idx.head).releaseAll idx.toList).proc q with pc := Pc.idle }
        ((forget state idx.head).releaseAll idx.toList).proc
      have place := (congrArg Proc.pc stays).trans (same.pc p)
      exact absurd ((congrArg Pc.request place).trans inside) leaves

end

theorem Moves.handled (moves : Moves state after) (good : Good state)
    (handles : (state.proc p).pc = .intr) (leaves : (after.proc p).pc ≠ .intr) (req : Request) :
    lastEvent req.number state.history ≠ some (.completed req) := by
  have stays : ∀ {q pc}, At state after q pc → (state.proc q).pc ≠ .intr →
      (after.proc p).pc = .intr := by
    intro q pc moved other
    rw [moved.rest p (fun same => other (same ▸ handles)), handles]
  cases moves with
  | lockBuf | unlockBuf | take | complete => exact absurd handles leaves
  | kill =>
    rw [kill_pc] at leaves
    exact absurd handles leaves
  | intrEntry =>
    rcases clearBuf_fields state _ with ⟨_, _, _, _, _, _, _, pcs⟩
    exact absurd ((pcs p).trans handles) leaves
  | rw atPc | interrupt atPc | intrAcquire atPc | acquire atPc | format atPc | ring atPc
  | publish atPc | waitSleep atPc | waitDone atPc | reacquire atPc =>
    exact absurd (stays (.of_update rfl) (by rw [atPc]; exact nofun)) leaves
  | allocate atPc allocated =>
    cases allocated
    exact absurd (stays (.of_update rfl) (by rw [atPc]; exact nofun)) leaves
  | allocFail atPc allocated =>
    cases allocated with
    | failed same =>
      exact absurd (stays (.trans same.pc (.of_update rfl)) (by rw [atPc]; exact nofun)) leaves
  | @finish q other idx middle atPc freed =>
    rw [good.chains.freeChain_eq atPc] at freed
    cases freed
    have same : Same (forget state idx.head) _ := releaseAll_same _ idx.toList
    exact absurd (stays (.trans same.pc (.of_update rfl)) (by rw [atPc]; exact nofun)) leaves
  | intrReturn _ handled =>
    rcases good.queues with ⟨avail, used, queues, recorded⟩
    intro completed
    rcases recorded.seen req completed with ⟨h, member, _⟩
    have empty := (queues.usedRing.empty_iff (by decide)).mp (congrArg UInt16.toNat handled)
    rw [empty] at member
    cases member

theorem Good.finish_proceeds (good : Good state) (atPc : (state.proc p).pc = .finish req idx) :
    ∃ next, proceed state p = .next next := by
  simp only [proceed, atPc, good.chains.freeChain_eq atPc, Outcome.map]
  exact ⟨_, rfl⟩

theorem Good.proceed_safe (good : Good state) (message : String) :
    proceed state p ≠ .panic message := by
  rw [proceed]
  split
  · intro equal
    cases equal
  · split <;> (intro equal; cases equal)
  · rcases alloc3Desc_spec state with ⟨middle, idx, result, _⟩
    rw [result]
    cases idx <;> (intro equal; cases equal)
  · intro equal
    cases equal
  · intro equal
    cases equal
  · intro equal
    cases equal
  · split <;> (intro equal; cases equal)
  · split <;> (intro equal; cases equal)
  · rename_i atPc
    rw [good.chains.freeChain_eq atPc]
    intro equal
    cases equal
  · split <;> (intro equal; cases equal)
  · split
    · intro equal
      cases equal
    · rename_i more
      rcases good.queues with ⟨avail, used, queues, _⟩
      rcases queues.usedEntry good.chains more with ⟨q, req, idx, rest, rfl, found, _⟩
      have status := queues.status idx.head List.mem_cons_self
      rw [found, intrEntry, if_neg (not_not.mpr status)]
      intro equal
      cases equal

theorem Good.step_safe (good : Good state) (label : Label) (message : String) :
    step state label ≠ .panic message := by
  cases label with
  | proceed p =>
    simp only [step]
    split
    · exact good.proceed_safe message
    · intro equal
      cases equal
  | kill p => (intro equal; cases equal)
  | lockBuf p b | unlockBuf p b | rw p b blockno write | interrupt p =>
    simp only [step]
    split <;> (intro equal; cases equal)
  | take =>
    simp only [step, deviceTake]
    split <;> (intro equal; cases equal)
  | complete head =>
    simp only [step, deviceComplete]
    split <;> (intro equal; cases equal)

end Good

/-- What the driver and the device keep to. -/
structure Protocol (state : State) : Prop where
  /-- The descriptors that are not free are those of the requests between
  `alloc3_desc` and `free_chain`. -/
  descriptors : ∀ i < num, state.disk.free i = false ↔
    ∃ p idx, (state.proc p).pc.chain = some idx ∧ i ∈ idx.toList
  three : ∀ p idx, (state.proc p).pc.chain = some idx →
    idx.toList.length = 3 ∧ idx.toList.Nodup ∧ ∀ i ∈ idx.toList, i < num
  disjoint : ∀ p q idx other, (state.proc p).pc.chain = some idx →
    (state.proc q).pc.chain = some other → p ≠ q → idx.toList.Disjoint other.toList
  linked : ∀ p req idx, (state.proc p).pc.Formatted req idx → Linked state req idx
  /-- No step overwrites a slot that the device has not taken. -/
  slots : ∀ label next slot, step state label = .next next → Untaken state slot →
    next.disk.avail.ring slot = state.disk.avail.ring slot
  /-- A buffer's `b->disk` is cleared for a completed request, and only so. -/
  clears : ∀ label next b, step state label = .next next → state.bdisk b = true →
    next.bdisk b = false → ∃ req, req.b = b ∧ next.history = .cleared req (some b) :: state.history
  cleared : ∀ label next req b, step state label = .next next →
    next.history = .cleared req b :: state.history →
      b = some req.b ∧ next.bdisk req.b = false ∧
        lastEvent req.number state.history = some (.completed req)
  once : ∀ later earlier req b other c, state.history = later ++ .cleared req b :: earlier →
    .cleared other c ∈ earlier → other.number ≠ req.number
  /-- When the handler returns, no completion is left. -/
  handled : ∀ label next p, step state label = .next next → (state.proc p).pc = .intr →
    (next.proc p).pc ≠ .intr → ∀ req, lastEvent req.number state.history ≠ some (.completed req)
  /-- A call returns after the completion of its own request. -/
  returned : ∀ label next p req, step state label = .next next →
    (state.proc p).pc.request = some req → (next.proc p).pc.request ≠ some req →
      next.history = .returned req :: state.history ∧ .completed req ∈ state.history
  ordered : Ordered Event.Follows state.history
  returns : ∀ p req idx, (state.proc p).pc = .finish req idx → ∃ next, proceed state p = .next next
  /-- Neither `free_desc` nor anything else panics. -/
  safe : ∀ label message, step state label ≠ .panic message

/-- The driver and the device keep to the protocol, for any number of threads and
any order of completions. -/
theorem virtio_protocol (labels : List Label) (state : State)
    (run : Steps step boot labels state) : Protocol state := by
  have good := run_good run
  rcases good.queues with ⟨avail, used, queues, recorded⟩
  constructor
  · exact good.chains.owned
  · exact fun p idx found => ⟨rfl, good.chains.valid p idx found⟩
  · intro p q idx other mine theirs different i inMine inTheirs
    exact different (good.chains.disjoint p q idx other i mine theirs inMine inTheirs)
  · exact good.chains.linked
  · exact fun label next slot stepEq => (step_moves stepEq).untaken_kept good
  · exact fun label next b stepEq => (step_moves stepEq).clears good
  · exact fun label next req b stepEq => (step_moves stepEq).cleared good
  · exact fun later earlier req b other c => cleared_once recorded.ordered
  · exact fun label next p stepEq => (step_moves stepEq).handled good
  · intro label next p req stepEq inside leaves
    have records := (step_moves stepEq).returned good inside leaves
    rcases ((step_moves stepEq).good good).queues with ⟨_, _, _, after⟩
    have split : next.history = [] ++ .returned req :: state.history := records
    exact ⟨records, completed_of_returned after.ordered split⟩
  · exact recorded.ordered
  · exact fun p req idx => good.finish_proceeds
  · exact good.step_safe

/-- Two requests are published and a third one finds no descriptors; the device
completes the second request first, and its call returns. -/
def outOfOrder : List Label :=
  [.lockBuf 0 0, .lockBuf 1 1, .lockBuf 2 2, .rw 0 0 10 true, .rw 1 1 11 false, .rw 2 2 12 false] ++
  List.replicate 6 (.proceed 0) ++ List.replicate 6 (.proceed 1) ++
  List.replicate 2 (.proceed 2) ++ [.take, .take, .complete 3, .interrupt 3] ++
  List.replicate 3 (.proceed 3) ++ List.replicate 3 (.proceed 1)

theorem virtio_protocol_outOfOrder : ∃ state, Steps step boot outOfOrder state ∧
    (∃ earlier, state.history =
      .returned { b := 1, blockno := 11, write := false, number := 1 } :: earlier) ∧
    Protocol state := by
  have ran := Outcome.eq_next_of_isNext boot
    (show (runSteps step boot outOfOrder).isNext = true by decide +kernel)
  have run := steps_iff_runSteps.mpr ran
  exact ⟨_, run, ⟨_, rfl⟩, virtio_protocol outOfOrder _ run⟩

end Xv6.Virtio
