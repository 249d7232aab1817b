import Xv6.Foundation.Fifo
import Xv6.Uart.Machine

/-! # The transmit queue

The bytes that have been written to THR, the byte that `uartstart` has in hand and
the bytes in the buffer are, in this order, the bytes that `uartputc` has accepted.
A process asleep on `&uart_tx_r` finds the buffer full, unless the holder of
`uart_tx_lock` is about to wake it. -/

namespace Xv6.Uart

open State

/-! ## The ring -/

/-- The bytes from `uart_tx_r` to `uart_tx_w` are `contents`. -/
def Tx.Holds (tx : Tx) (contents : List UInt8) : Prop :=
  Fifo uartTxBufSize (2 ^ 64) tx.buf tx.r.toNat tx.w.toNat contents

theorem toNat_add_one (counter : UInt64) : (counter + 1).toNat = (counter.toNat + 1) % 2 ^ 64 := by
  rw [UInt64.toNat_add]
  rfl

namespace Tx.Holds

variable {tx : Tx} {contents : List UInt8}

theorem full_iff (holds : tx.Holds contents) :
    tx.full = true ↔ contents.length = uartTxBufSize := by
  rw [Tx.full, decide_eq_true_iff, ← UInt64.toNat_inj, UInt64.toNat_add]
  exact Fifo.full_iff holds (by decide)

theorem empty_iff (holds : tx.Holds contents) : tx.empty = true ↔ contents = [] := by
  rw [Tx.empty, decide_eq_true_iff, eq_comm, ← UInt64.toNat_inj]
  exact Fifo.empty_iff holds (by decide)

theorem put (holds : tx.Holds contents) (space : tx.full = false) (c : UInt8) :
    (tx.put c).Holds (contents ++ [c]) := by
  have short : contents.length < uartTxBufSize := by
    apply Nat.lt_of_le_of_ne (Fifo.length holds)
    intro equal
    rw [holds.full_iff.mpr equal] at space
    cases space
  rw [Holds, Tx.put, toNat_add_one]
  exact Fifo.put holds ⟨2 ^ 59, rfl⟩ short c

theorem take (holds : tx.Holds contents) (nonempty : tx.empty = false) :
    ∃ rest, contents = tx.first :: rest ∧ tx.take.Holds rest := by
  cases contents with
  | nil =>
    rw [holds.empty_iff.mpr rfl] at nonempty
    cases nonempty
  | cons item rest =>
    rcases Fifo.take holds with ⟨first, taken⟩
    refine ⟨rest, ?_, ?_⟩
    · rw [Tx.first, first]
    · rw [Holds, Tx.take, toNat_add_one]
      exact taken

end Tx.Holds

/-! ## The device -/

/-- The bytes written to THR. -/
def written : List Event → List UInt8
  | [] => []
  | .lsr _ :: rest => written rest
  | .thr c :: rest => c :: written rest

theorem written_append (first second : List Event) :
    written (first ++ second) = written first ++ written second := by
  induction first with
  | nil => rfl
  | cons event rest induction =>
    cases event with
    | lsr idle => exact induction
    | thr c => exact congrArg (c :: ·) induction

/-- The last access was a read of LSR that found `LSR_TX_IDLE` set. -/
def Idle (device : List Event) : Prop := ∃ before, device = before ++ [.lsr true]

/-- Every write of THR comes right after a read of LSR that found `LSR_TX_IDLE`
set. -/
def Paced (device : List Event) : Prop :=
  ∀ before c after, device = before ++ .thr c :: after → Idle before

theorem Paced.nil : Paced [] := by
  intro before c after equal
  cases before <;> cases equal

theorem Paced.append {device : List Event} (paced : Paced device) {event : Event}
    (idle : ∀ c, event = .thr c → Idle device) : Paced (device ++ [event]) := by
  intro before c after equal
  rcases List.eq_nil_or_concat after with none | ⟨front, last, some⟩
  · subst none
    rcases List.append_inj' equal rfl with ⟨same, lastEq⟩
    cases lastEq
    exact same ▸ idle c rfl
  · rw [some, List.concat_eq_append, ← List.cons_append, ← List.append_assoc] at equal
    exact paced before c front (List.append_inj' equal rfl).1

/-! ## What the state of a process says -/

/-- The process is asleep on `&uart_tx_r`. -/
def Pc.asleep : Pc → Bool
  | .sleepReleased _ | .sleeping _ => true
  | _ => false

/-- The process is in `uartputc`, before its byte is in the buffer. -/
def Pc.waits : Pc → Bool
  | .putc _ | .putcLocked _ | .putcLoop _ | .sleepLocked _ | .sleepReleased _ | .sleeping _
  | .woken _ => true
  | _ => false

/-- The process holds `uart_tx_lock`. -/
def Pc.holds : Pc → Bool
  | .idle | .putc _ | .sleepReleased _ | .sleeping _ | .woken _ | .intr => false
  | _ => true

/-- The byte that has left the buffer and is not yet written. -/
def Pc.inHand : Pc → List UInt8
  | .wakeup _ c | .thr c => [c]
  | _ => []

/-- The holder of the lock will wake the process `q` before it releases the lock. -/
def Pc.Wakes (q : Nat) : Pc → Prop
  | .wakeup next _ => next ≤ q
  | _ => False

/-- What the holder of the lock has established. -/
def Known (state : State) : Pc → Prop
  | .sleepLocked _ => state.tx.full = true
  | .lsr => state.tx.empty = false
  | .ready => state.tx.empty = false ∧ Idle state.device
  | .wakeup .. | .thr _ => Idle state.device
  | _ => True

/-- The bytes written, the bytes in hand and the bytes in the buffer. -/
def Queued (state : State) (inHand : List UInt8) : Prop :=
  state.tx.r.toNat = (written state.device ++ inHand).length % 2 ^ 64 ∧
    ∃ rest, state.accepted = written state.device ++ inHand ++ rest ∧ state.tx.Holds rest

structure Ok (slots : Nat) (state : State) : Prop where
  holder : ∀ p, state.lock = some p ↔ (state.pc p).holds = true
  known : ∀ p, Known state (state.pc p)
  paced : Paced state.device
  idleQueue : state.lock = none → Queued state []
  queue : ∀ p, state.lock = some p → Queued state (state.pc p).inHand
  inside : ∀ q, (state.pc q).waits = true → q < slots
  full : ∀ q, (state.pc q).asleep = true →
    state.tx.full = true ∨ ∃ p, state.lock = some p ∧ (state.pc p).Wakes q

section Steps

variable {slots : Nat} {state after : State} {p : Nat} {pc : Pc}

theorem Pc.asleep_of_holds (holds : pc.holds = true) : pc.asleep = false := by
  cases pc <;> first | rfl | cases holds

theorem Pc.waits_of_asleep (asleep : pc.asleep = true) : pc.waits = true := by
  cases pc <;> first | rfl | cases asleep

theorem Known.of_not_holds (free : pc.holds = false) : Known state pc := by
  cases pc <;> first | exact trivial | cases free

theorem setPc_pc_self (state : State) (p : Nat) (pc : Pc) : (state.setPc p pc).pc p = pc :=
  Function.update_self ..

variable {q : Nat}

theorem setPc_pc_of_ne (state : State) (different : q ≠ p) (pc : Pc) :
    (state.setPc p pc).pc q = state.pc q :=
  Function.update_of_ne different ..

variable {c : UInt8}

namespace Ok

theorem not_holds (ok : Ok slots state) (mine : state.lock = some p ∨ state.lock = none)
    (different : q ≠ p) : (state.pc q).holds = false := by
  rw [← Bool.not_eq_true, ← ok.holder]
  intro theirs
  rcases mine with mine | free
  · rw [mine] at theirs
    exact different (Option.some.inj theirs).symm
  · rw [free] at theirs
    cases theirs

theorem knows (ok : Ok slots state) (here : state.pc p = pc) : Known state pc := by
  have known := ok.known p
  rwa [here] at known

theorem mine (ok : Ok slots state) (here : state.pc p = pc) (holds : pc.holds = true) :
    state.lock = some p := by
  rw [ok.holder, here]
  exact holds

variable {old : Pc}

section

variable (ok : Ok slots state)

include ok

/-- A step of the process that holds the lock before and after: it changes what the
lock protects, and goes to another place. -/
theorem inCritical {base : State} (lock : base.lock = state.lock) (pcs : base.pc = state.pc)
    (here : state.pc p = old) (held : old.holds = true) (holds : pc.holds = true)
    (waits : pc.waits = true → old.waits = true) (known : Known base pc) (paced : Paced base.device)
    (queue : Queued state old.inHand → Queued base pc.inHand)
    (full : ∀ q, q < slots → (state.pc q).asleep = true → state.tx.full = true ∨ old.Wakes q →
      base.tx.full = true ∨ pc.Wakes q) : Ok slots (base.setPc p pc) := by
  have mine := ok.mine here held
  have now : base.lock = some p := lock.trans mine
  have self : (base.setPc p pc).pc p = pc := setPc_pc_self ..
  have rest : ∀ {q}, q ≠ p → (base.setPc p pc).pc q = state.pc q := by
    intro q different
    rw [setPc_pc_of_ne _ different, pcs]
  constructor
  · intro q
    by_cases same : q = p
    · rw [same, self]
      exact iff_of_true now holds
    · rw [rest same]
      exact lock ▸ ok.holder q
  · intro q
    by_cases same : q = p
    · rw [same, self]
      cases pc <;> exact known
    · rw [rest same]
      exact Known.of_not_holds (ok.not_holds (.inl mine) same)
  · exact paced
  · intro free
    cases now.symm.trans free
  · intro q held
    cases now.symm.trans held
    rw [self]
    exact queue (here ▸ ok.queue p mine)
  · intro q waiting
    by_cases same : q = p
    · rw [same, self] at waiting
      rw [same]
      apply ok.inside p
      rw [here]
      exact waits waiting
    · rw [rest same] at waiting
      exact ok.inside q waiting
  · intro q asleep
    have different : q ≠ p := by
      intro same
      rw [same, self, Pc.asleep_of_holds holds] at asleep
      cases asleep
    rw [rest different] at asleep
    have before : state.tx.full = true ∨ old.Wakes q := by
      rcases ok.full q asleep with isFull | ⟨r, theirs, wakes⟩
      · exact .inl isFull
      · cases mine.symm.trans theirs
        exact .inr (here ▸ wakes)
    rcases full q (ok.inside q (Pc.waits_of_asleep asleep)) asleep before with isFull | wakes
    · exact .inl isFull
    · refine .inr ⟨p, now, ?_⟩
      rw [self]
      exact wakes

theorem moves (here : state.pc p = old) (held : old.holds = true) (holds : pc.holds = true)
    (waits : pc.waits = true → old.waits = true) (known : Known state pc)
    (inHand : old.inHand = pc.inHand)
    (full : ∀ q, q < slots → (state.pc q).asleep = true → old.Wakes q → pc.Wakes q) :
    Ok slots (state.setPc p pc) := by
  apply ok.inCritical rfl rfl here held holds waits known ok.paced
  · rw [inHand]
    exact id
  · intro q small asleep before
    exact before.imp id (full q small asleep)

theorem acquires (free : state.lock = none) (here : state.pc p = old)
    (waits : pc.waits = true → old.waits = true) (holds : pc.holds = true) (known : Known state pc)
    (inHand : pc.inHand = []) : Ok slots ((state.setLock (some p)).setPc p pc) := by
  have notSelf : ∀ {q}, q ≠ p → ((state.setLock (some p)).setPc p pc).pc q = state.pc q :=
    fun different => setPc_pc_of_ne _ different _
  have self : ((state.setLock (some p)).setPc p pc).pc p = pc := setPc_pc_self ..
  constructor
  · intro q
    by_cases same : q = p
    · rw [same, self]
      exact iff_of_true rfl holds
    · rw [notSelf same, ok.not_holds (.inr free) same]
      apply iff_of_false
      · intro held
        exact same (Option.some.inj held).symm
      · exact Bool.false_ne_true
  · intro q
    by_cases same : q = p
    · rw [same, self]
      cases pc <;> exact known
    · rw [notSelf same]
      exact Known.of_not_holds (ok.not_holds (.inr free) same)
  · exact ok.paced
  · intro none
    cases none
  · intro q held
    cases held
    rw [self, inHand]
    exact ok.idleQueue free
  · intro q waiting
    by_cases same : q = p
    · rw [same, self] at waiting
      rw [same]
      apply ok.inside p
      rw [here]
      exact waits waiting
    · rw [notSelf same] at waiting
      exact ok.inside q waiting
  · intro q asleep
    have different : q ≠ p := by
      intro same
      rw [same, self, Pc.asleep_of_holds holds] at asleep
      cases asleep
    rw [notSelf different] at asleep
    rcases ok.full q asleep with isFull | ⟨r, held, _⟩
    · exact .inl isFull
    · rw [free] at held
      cases held

theorem releases (here : state.pc p = old) (held : old.holds = true) (holds : pc.holds = false)
    (waits : pc.waits = true → old.waits = true) (inHand : old.inHand = [])
    (nobody : ∀ q, ¬ old.Wakes q) (full : pc.asleep = true → state.tx.full = true) :
    Ok slots ((state.setLock none).setPc p pc) := by
  have mine := ok.mine here held
  have notSelf : ∀ {q}, q ≠ p → ((state.setLock none).setPc p pc).pc q = state.pc q :=
    fun different => setPc_pc_of_ne _ different _
  have self : ((state.setLock none).setPc p pc).pc p = pc := setPc_pc_self ..
  have noHolder : ∀ q, (((state.setLock none).setPc p pc).pc q).holds = false := by
    intro q
    by_cases same : q = p
    · rw [same, self]
      exact holds
    · rw [notSelf same]
      exact ok.not_holds (.inl mine) same
  constructor
  · intro q
    rw [noHolder q]
    apply iff_of_false _ Bool.false_ne_true
    intro held
    cases held
  · exact fun q => Known.of_not_holds (noHolder q)
  · exact ok.paced
  · intro _
    have queued := ok.queue p mine
    rw [here, inHand] at queued
    exact queued
  · intro q held
    cases held
  · intro q waiting
    by_cases same : q = p
    · rw [same, self] at waiting
      rw [same]
      apply ok.inside p
      rw [here]
      exact waits waiting
    · rw [notSelf same] at waiting
      exact ok.inside q waiting
  · intro q asleep
    by_cases same : q = p
    · rw [same, self] at asleep
      exact .inl (full asleep)
    · rw [notSelf same] at asleep
      rcases ok.full q asleep with isFull | ⟨r, held, wakes⟩
      · exact .inl isFull
      · cases mine.symm.trans held
        exact absurd (here ▸ wakes) (nobody q)

/-- A process that does not hold the lock goes to another place, and does not fall
asleep. -/
theorem outside (free : (state.pc p).holds = false) (still : pc.holds = false)
    (waits : pc.waits = true → p < slots) (asleep : pc.asleep = true → (state.pc p).asleep = true) :
    Ok slots (state.setPc p pc) := by
  have notMine : state.lock ≠ some p := by
    rw [Ne, ok.holder, free]
    exact Bool.false_ne_true
  have kept : ∀ {q}, state.lock = some q → (state.setPc p pc).pc q = state.pc q := by
    intro q held
    apply setPc_pc_of_ne
    intro same
    exact notMine (same ▸ held)
  constructor
  · intro q
    by_cases same : q = p
    · rw [same, setPc_pc_self, still]
      exact iff_of_false notMine Bool.false_ne_true
    · rw [setPc_pc_of_ne _ same]
      exact ok.holder q
  · intro q
    by_cases same : q = p
    · rw [same, setPc_pc_self]
      exact Known.of_not_holds still
    · rw [setPc_pc_of_ne _ same]
      have known := ok.known q
      cases found : state.pc q <;> rw [found] at known <;> exact known
  · exact ok.paced
  · exact ok.idleQueue
  · intro q held
    rw [kept held]
    exact ok.queue q held
  · intro q waiting
    by_cases same : q = p
    · rw [same, setPc_pc_self] at waiting
      rw [same]
      exact waits waiting
    · rw [setPc_pc_of_ne _ same] at waiting
      exact ok.inside q waiting
  · intro q sleeps
    have before : (state.pc q).asleep = true := by
      by_cases same : q = p
      · rw [same, setPc_pc_self] at sleeps
        rw [same]
        exact asleep sleeps
      · rwa [setPc_pc_of_ne _ same] at sleeps
    rcases ok.full q before with isFull | ⟨r, held, wakes⟩
    · exact .inl isFull
    · refine .inr ⟨r, held, ?_⟩
      rw [kept held]
      exact wakes

theorem awakens (sleeping : state.pc p = .sleeping c) : Ok slots (state.setPc p (.woken c)) := by
  have waiting : p < slots := by
    apply ok.inside p
    rw [sleeping]
    rfl
  apply ok.outside
  · rw [sleeping]
    rfl
  · rfl
  · exact fun _ => waiting
  · intro asleep
    cases asleep

theorem puts (here : state.pc p = .putcLoop c) (space : state.tx.full = false) :
    Ok slots ((state.put c).setPc p .start) := by
  refine ok.inCritical rfl rfl here rfl rfl Bool.noConfusion trivial ok.paced ?_ ?_
  · intro queued
    rcases queued with ⟨taken, rest, accepted, holds⟩
    refine ⟨taken, rest ++ [c], ?_, holds.put space c⟩
    exact (congrArg (· ++ [c]) accepted).trans (List.append_assoc ..)
  · -- Nobody sleeps on a buffer that has space.
    intro q _ _ before
    rw [space] at before
    rcases before with isFull | wakes
    · cases isFull
    · exact wakes.elim

theorem takes (here : state.pc p = .ready) :
    Ok slots (state.take.setPc p (.wakeup 0 state.tx.first)) := by
  rcases ok.knows here with ⟨nonempty, idle⟩
  refine ok.inCritical rfl rfl here rfl rfl Bool.noConfusion idle ok.paced ?_ ?_
  · intro queued
    rcases queued with ⟨taken, contents, accepted, holds⟩
    rcases holds.take nonempty with ⟨rest, contentsEq, restHolds⟩
    constructor
    · have next : (state.tx.r + 1).toNat =
          (written state.device ++ [state.tx.first]).length % 2 ^ 64 := by
        rw [toNat_add_one, taken, Nat.mod_add_mod, List.length_append, List.length_append]
        rfl
      exact next
    · refine ⟨rest, ?_, restHolds⟩
      rw [contentsEq] at accepted
      exact accepted.trans (by simp [State.take, Pc.inHand])
  · exact fun q _ _ _ => .inr (Nat.zero_le q)

theorem accesses (here : state.pc p = old) (held : old.holds = true)
    (paced : ∀ c, event = .thr c → Idle state.device)
    (bytes : written [event] ++ pc.inHand = old.inHand) (holds : pc.holds = true)
    (waits : pc.waits = true → old.waits = true) (nobody : ∀ q, ¬ old.Wakes q)
    (known : Known (state.access event) pc) : Ok slots ((state.access event).setPc p pc) := by
  refine ok.inCritical rfl rfl here held holds waits known (ok.paced.append paced) ?_ ?_
  · intro queued
    have same : written (state.device ++ [event]) ++ pc.inHand =
        written state.device ++ old.inHand := by
      rw [written_append, List.append_assoc, bytes]
    rw [Queued, ← same] at queued
    exact queued
  · intro q _ _ before
    exact .inl (before.resolve_right (nobody q))

end

end Ok

/-! ## Every step keeps the invariant -/

theorem wake_ok (ok : Ok slots state) (slot : Nat) : Ok slots (wake state slot) := by
  rw [wake]
  split
  · rename_i c sleeping
    exact ok.awakens sleeping
  · exact ok

variable {slot : Nat}

theorem wake_pc_of_ne (state : State) (different : q ≠ slot) :
    (wake state slot).pc q = state.pc q := by
  rw [wake]
  split
  · exact setPc_pc_of_ne _ different _
  · rfl

theorem wake_not_asleep (available : (state.pc slot).locked = false) :
    ((wake state slot).pc slot).asleep = false := by
  rw [wake]
  cases found : state.pc slot with
  | sleeping c => exact congrArg Pc.asleep (setPc_pc_self ..)
  | sleepReleased c =>
    rw [found] at available
    cases available
  | _ => exact congrArg Pc.asleep found

section

variable (ok : Ok slots state)

include ok

theorem Ok.visited (here : state.pc p = .wakeup next c) (awake : (state.pc next).asleep = false) :
    Ok slots (state.setPc p (.wakeup (next + 1) c)) := by
  have idle : Idle state.device := ok.knows here
  refine ok.moves here rfl rfl Bool.noConfusion idle rfl ?_
  intro q _ asleep wakes
  apply Nat.lt_of_le_of_ne wakes
  intro same
  rw [← same, awake] at asleep
  cases asleep

theorem proceed_ok (stepEq : proceed slots state p = .next after) : Ok slots after := by
  rw [proceed] at stepEq
  cases here : state.pc p with
  | idle | spin | sleeping | lsr => simp [here] at stepEq
  | putc c | woken c =>
    simp only [here] at stepEq
    split at stepEq
    · rename_i free
      cases stepEq
      exact ok.acquires free here id rfl trivial rfl
    · cases stepEq
  | putcLocked c =>
    simp only [here] at stepEq
    split at stepEq
    · cases stepEq
      exact ok.moves here rfl rfl Bool.noConfusion trivial rfl (fun _ _ _ => id)
    · cases stepEq
      exact ok.moves here rfl rfl id trivial rfl (fun _ _ _ => id)
  | putcLoop c =>
    simp only [here] at stepEq
    split at stepEq
    · rename_i isFull
      cases stepEq
      exact ok.moves here rfl rfl id isFull rfl (fun _ _ _ => id)
    · rename_i space
      cases stepEq
      exact ok.puts here (by simpa using space)
  | sleepLocked c =>
    simp only [here] at stepEq
    cases stepEq
    exact ok.releases here rfl rfl id rfl (fun _ => id) (fun _ => ok.knows here)
  | sleepReleased c =>
    have free : (state.pc p).holds = false := here ▸ rfl
    have inside : p < slots := ok.inside p (here ▸ rfl)
    simp only [here] at stepEq
    cases stepEq
    exact ok.outside free rfl (fun _ => inside) (fun _ => here ▸ rfl)
  | intr =>
    simp only [here] at stepEq
    split at stepEq
    · rename_i free
      cases stepEq
      exact ok.acquires free here Bool.noConfusion rfl trivial rfl
    · cases stepEq
  | start =>
    simp only [here] at stepEq
    split at stepEq
    · cases stepEq
      exact ok.moves here rfl rfl Bool.noConfusion trivial rfl (fun _ _ _ => id)
    · rename_i nonempty
      cases stepEq
      have known : Known state .lsr := Bool.eq_false_of_not_eq_true nonempty
      exact ok.moves here rfl rfl Bool.noConfusion known rfl (fun _ _ _ => id)
  | ready =>
    simp only [here] at stepEq
    cases stepEq
    exact ok.takes here
  | wakeup next c =>
    simp only [here] at stepEq
    split at stepEq
    · split at stepEq
      · rename_i same
        cases stepEq
        apply ok.visited here
        rw [same, here]
        rfl
      · rename_i different
        split at stepEq
        · cases stepEq
        · rename_i available
          cases stepEq
          apply (wake_ok ok next).visited
          · rw [wake_pc_of_ne state (fun same => different same.symm)]
            exact here
          · exact wake_not_asleep (by simpa using available)
    · rename_i outside
      cases stepEq
      have idle : Idle state.device := ok.knows here
      refine ok.moves here rfl rfl Bool.noConfusion idle rfl ?_
      intro q small _ wakes
      exact absurd (Nat.lt_of_le_of_lt wakes small) outside
  | thr c =>
    simp only [here] at stepEq
    cases stepEq
    exact ok.accesses here rfl (fun _ _ => ok.knows here) rfl rfl Bool.noConfusion
      (fun _ => id) trivial
  | release =>
    simp only [here] at stepEq
    cases stepEq
    exact ok.releases here rfl rfl Bool.noConfusion rfl (fun _ => id) Bool.noConfusion

theorem lsrStep_ok (stepEq : lsrStep state p idle = .next after) : Ok slots after := by
  rw [lsrStep] at stepEq
  split at stepEq
  · rename_i here
    cases stepEq
    have nonempty := ok.knows here
    cases idle with
    | true =>
      exact ok.accesses here rfl (fun _ => Event.noConfusion) rfl rfl Bool.noConfusion
        (fun _ => id) ⟨nonempty, state.device, rfl⟩
    | false =>
      exact ok.accesses here rfl (fun _ => Event.noConfusion) rfl rfl Bool.noConfusion
        (fun _ => id) trivial
  · cases stepEq

theorem kill_ok : Ok slots (kill state p) := by
  rw [kill]
  split
  · rename_i c sleeping
    exact ok.awakens sleeping
  · exact ok

theorem step_ok (stepEq : step slots state (p, action) = .next after) : Ok slots after := by
  cases action with
  | uartputc c =>
    simp only [step] at stepEq
    split at stepEq
    · rename_i idle
      cases stepEq
      apply ok.outside _ rfl (fun _ => idle.1)
      · intro asleep
        cases asleep
      · rw [idle.2]
        rfl
    · cases stepEq
  | uartintr =>
    simp only [step] at stepEq
    split at stepEq
    · rename_i idle
      cases stepEq
      apply ok.outside _ rfl
      · intro waiting
        cases waiting
      · intro asleep
        cases asleep
      · rw [idle]
        rfl
    · cases stepEq
  | proceed => exact proceed_ok ok stepEq
  | lsr idle => exact lsrStep_ok ok stepEq
  | kill =>
    simp only [step] at stepEq
    split at stepEq
    · cases stepEq
    · cases stepEq
      exact kill_ok ok
  | panic =>
    cases stepEq
    exact { ok with
      known := by
        intro q
        have known := ok.known q
        cases found : state.pc q <;> rw [found] at known <;> exact known }

omit ok in
theorem boot_ok (buf : Nat → UInt8) : Ok slots (boot buf) where
  holder := fun _ => iff_of_false (by intro held; cases held) Bool.false_ne_true
  known := fun _ => trivial
  paced := .nil
  idleQueue := fun _ => ⟨rfl, [], rfl, Fifo.nil (Nat.two_pow_pos 64)⟩
  queue := by
    intro p held
    cases held
  inside := fun _ waiting => absurd waiting Bool.false_ne_true
  full := fun _ asleep => absurd asleep Bool.false_ne_true

theorem Ok.inFlight : ∃ inHand : List UInt8, inHand.length ≤ 1 ∧
    (state.lock = none → inHand = []) ∧ Queued state inHand := by
  cases held : state.lock with
  | none => exact ⟨[], Nat.zero_le 1, fun _ => rfl, ok.idleQueue held⟩
  | some p =>
    refine ⟨(state.pc p).inHand, ?_, ?_, ok.queue p held⟩
    · cases state.pc p <;> simp [Pc.inHand]
    · intro free
      cases free

end

end Steps

/-- In every reachable state: the bytes written to THR, at most one byte in the
hand of `uartstart`, and at most `UART_TX_BUF_SIZE` bytes in the buffer are the
bytes accepted, in order; the counters count them modulo 2^64; every write of THR
comes right after a read of LSR with `LSR_TX_IDLE` set; and while `uart_tx_lock` is
free, no byte is in hand, and a process sleeps only on a full buffer. -/
theorem uart_transmit_queue {slots : Nat} {buf : Nat → UInt8} {labels : List (Nat × Action)}
    {state : State} (run : Steps (step slots) (boot buf) labels state) :
    (∃ inHand rest, state.accepted = written state.device ++ inHand ++ rest ∧
      inHand.length ≤ 1 ∧ rest.length ≤ uartTxBufSize ∧
      (state.lock = none → inHand = []) ∧
      state.tx.r.toNat = (written state.device ++ inHand).length % 2 ^ 64 ∧
      state.tx.w.toNat = state.accepted.length % 2 ^ 64 ∧
      (state.accepted.length < 2 ^ 64 → state.tx.r ≤ state.tx.w ∧
        state.tx.w.toNat ≤ state.tx.r.toNat + uartTxBufSize)) ∧
    Paced state.device ∧
    (state.lock = none → ∀ q, (state.pc q).asleep = true → state.tx.full = true) := by
  have ok : Ok slots state := by
    apply run.invariant _ (boot_ok buf)
    intro _ label _ kept stepEq
    exact step_ok kept stepEq
  refine ⟨?_, ok.paced, ?_⟩
  · rcases ok.inFlight with ⟨inHand, short, free, taken, rest, accepted, holds⟩
    have room : rest.length ≤ uartTxBufSize := Fifo.length holds
    have put : state.tx.w.toNat = state.accepted.length % 2 ^ 64 := by
      rw [Fifo.nwrite_eq holds, taken, Nat.mod_add_mod, ← List.length_append, ← accepted]
    refine ⟨inHand, rest, accepted, short, room, free, taken, put, ?_⟩
    -- Before the counters wrap they are the numbers of bytes.
    intro small
    have total : state.accepted.length =
        (written state.device ++ inHand).length + rest.length := by
      rw [accepted, List.length_append]
    rw [Nat.mod_eq_of_lt (by omega)] at taken put
    constructor
    · rw [UInt64.le_iff_toNat_le]
      omega
    · omega
  · intro free q asleep
    rcases ok.full q asleep with isFull | ⟨p, held, _⟩
    · exact isFull
    · cases free.symm.trans held

/-- Two processes send a byte each; the device is busy after the first one, and
the interrupt sends the second. -/
def twoBytes : List (Nat × Action) :=
  [(0, .uartputc 7), (0, .proceed), (0, .proceed), (0, .proceed), (0, .proceed), (0, .lsr true),
    (0, .proceed), (0, .proceed), (0, .proceed), (0, .proceed), (0, .proceed), (0, .proceed),
    (0, .proceed), (1, .uartputc 8), (1, .proceed), (1, .proceed), (1, .proceed), (1, .proceed),
    (1, .lsr false), (1, .proceed), (2, .uartintr), (2, .proceed), (2, .proceed), (2, .lsr true),
    (2, .proceed), (2, .proceed), (2, .proceed), (2, .proceed), (2, .proceed)]

theorem uart_transmit_queue_twoBytes : ∃ state,
    Steps (step 2) (boot fun _ => 0) twoBytes state ∧ written state.device = [7, 8] ∧
    Paced state.device := by
  have ran := Outcome.eq_next_of_isNext (boot fun _ => 0)
    (show (runSteps (step 2) (boot fun _ => 0) twoBytes).isNext = true by decide +kernel)
  have run := steps_iff_runSteps.mpr ran
  exact ⟨_, run, by decide +kernel, (uart_transmit_queue run).2.1⟩

end Xv6.Uart
