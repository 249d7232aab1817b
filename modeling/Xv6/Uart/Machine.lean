import Xv6.Foundation.Transition
import Mathlib.Logic.Function.Basic

/-! # The transmit half of `kernel/uart.c`

Any number of processes call `uartputc`, and `uartintr` may run at any time, on a
processor that runs one of them or none. A step is the code between two points
where somebody else can act: a lock operation, an access to a register of the
device, or the visit of `wakeup` to one process. What the device answers to a read
of LSR is part of the label of a step. -/

namespace Xv6.Uart

def uartTxBufSize : Nat := 32

/-- `uart_tx_buf`, `uart_tx_w` and `uart_tx_r`. -/
structure Tx where
  buf : Nat → UInt8
  w : UInt64
  r : UInt64

/-- `uart_tx_w == uart_tx_r + UART_TX_BUF_SIZE`. -/
def Tx.full (tx : Tx) : Bool := tx.w = tx.r + 32

/-- `uart_tx_w == uart_tx_r`. -/
def Tx.empty (tx : Tx) : Bool := tx.w = tx.r

/-- `uart_tx_buf[uart_tx_w % UART_TX_BUF_SIZE] = c; uart_tx_w += 1`. -/
def Tx.put (tx : Tx) (c : UInt8) : Tx :=
  { tx with
    buf := Function.update tx.buf (tx.w.toNat % uartTxBufSize) c
    w := tx.w + 1 }

/-- `uart_tx_buf[uart_tx_r % UART_TX_BUF_SIZE]`. -/
def Tx.first (tx : Tx) : UInt8 := tx.buf (tx.r.toNat % uartTxBufSize)

/-- `uart_tx_r += 1`. -/
def Tx.take (tx : Tx) : Tx := { tx with r := tx.r + 1 }

/-- Where a process, or a processor in `uartintr`, is. -/
inductive Pc where
  | idle
  /-- `uartputc`: about to acquire `uart_tx_lock`, about to look at `panicked`, and
  at the head of its loop. -/
  | putc (c : UInt8)
  | putcLocked (c : UInt8)
  | putcLoop (c : UInt8)
  /-- The endless loop of a panicked kernel. -/
  | spin
  /-- `sleep(&uart_tx_r, &uart_tx_lock)`: with both locks, with `p->lock`, asleep,
  and about to acquire `uart_tx_lock` again. -/
  | sleepLocked (c : UInt8)
  | sleepReleased (c : UInt8)
  | sleeping (c : UInt8)
  | woken (c : UInt8)
  /-- `uartintr`: about to acquire `uart_tx_lock`. -/
  | intr
  /-- `uartstart`: at the head of its loop, about to read LSR, about to take a
  byte, in `wakeup`, and about to write THR. -/
  | start
  | lsr
  | ready
  | wakeup (next : Nat) (c : UInt8)
  | thr (c : UInt8)
  /-- About to release `uart_tx_lock` and return. -/
  | release
  deriving DecidableEq

/-- `p->lock` is taken: only `sleep` keeps it over a step. -/
def Pc.locked : Pc → Bool
  | .sleepLocked _ | .sleepReleased _ => true
  | _ => false

/-- What `uartstart` does to the registers of the device. -/
inductive Event where
  /-- A read of LSR, and whether `LSR_TX_IDLE` was set. -/
  | lsr (idle : Bool)
  /-- A write of THR. -/
  | thr (c : UInt8)
  deriving DecidableEq

/-- `pc` is where each process is. The last two fields are history: the bytes that
`uartputc` has put into the buffer, and the accesses of `uartstart` to the device. -/
structure State where
  tx : Tx
  lock : Option Nat
  panicked : Bool
  pc : Nat → Pc
  accepted : List UInt8
  device : List Event

namespace State

def setPc (state : State) (p : Nat) (pc : Pc) : State :=
  { state with pc := Function.update state.pc p pc }

def setLock (state : State) (lock : Option Nat) : State :=
  { state with lock := lock }

/-- A byte goes into the buffer. -/
def put (state : State) (c : UInt8) : State :=
  { state with tx := state.tx.put c, accepted := state.accepted ++ [c] }

def take (state : State) : State :=
  { state with tx := state.tx.take }

def access (state : State) (event : Event) : State :=
  { state with device := state.device ++ [event] }

end State

/-- A step of a process or processor: a call of `uartputc`, an interrupt, the next
step of the code, or a read of LSR; or somebody kills the process, or the kernel
panics. -/
inductive Action where
  | uartputc (c : UInt8)
  | uartintr
  | proceed
  | lsr (idle : Bool)
  | kill
  | panic

section Steps

variable (slots : Nat) (state : State) (p : Nat)

/-- The body of the loop of `wakeup(&uart_tx_r)` for the process `slot`. -/
def wake (slot : Nat) : State :=
  match state.pc slot with
  | .sleeping c => state.setPc slot (.woken c)
  | _ => state

/-- The next step of the code of `p`. -/
def proceed : Outcome State :=
  match state.pc p with
  | .idle | .spin | .sleeping _ | .lsr => .disabled
  | .putc c =>
    if state.lock = none then .next ((state.setLock (some p)).setPc p (.putcLocked c))
    else .disabled
  | .putcLocked c =>
    if state.panicked then .next (state.setPc p .spin)
    else .next (state.setPc p (.putcLoop c))
  | .putcLoop c =>
    if state.tx.full then .next (state.setPc p (.sleepLocked c))
    else .next ((state.put c).setPc p .start)
  | .sleepLocked c => .next ((state.setLock none).setPc p (.sleepReleased c))
  | .sleepReleased c => .next (state.setPc p (.sleeping c))
  | .woken c =>
    if state.lock = none then .next ((state.setLock (some p)).setPc p (.putcLoop c))
    else .disabled
  | .intr =>
    if state.lock = none then .next ((state.setLock (some p)).setPc p .start)
    else .disabled
  | .start =>
    if state.tx.empty then .next (state.setPc p .release)
    else .next (state.setPc p .lsr)
  | .ready => .next (state.take.setPc p (.wakeup 0 state.tx.first))
  | .wakeup next c =>
    if next < slots then
      if next = p then .next (state.setPc p (.wakeup (next + 1) c))
      else if (state.pc next).locked then .disabled
      else .next ((wake state next).setPc p (.wakeup (next + 1) c))
    else .next (state.setPc p (.thr c))
  | .thr c => .next ((state.access (.thr c)).setPc p .start)
  | .release => .next ((state.setLock none).setPc p .idle)

/-- `ReadReg(LSR)` in `uartstart`. -/
def lsrStep (idle : Bool) : Outcome State :=
  match state.pc p with
  | .lsr => .next ((state.access (.lsr idle)).setPc p (if idle then .ready else .release))
  | _ => .disabled

/-- `kill`: a sleeping process becomes runnable. -/
def kill : State :=
  match state.pc p with
  | .sleeping c => state.setPc p (.woken c)
  | _ => state

end Steps

/-- One step of a system with `slots` entries in the process table. A number from
`slots` on stands for a processor that runs no process: it only has interrupts. -/
def step (slots : Nat) (state : State) : Nat × Action → Outcome State
  | (p, action) =>
    match action with
    | .uartputc c =>
      if p < slots ∧ state.pc p = .idle then .next (state.setPc p (.putc c)) else .disabled
    | .uartintr => if state.pc p = .idle then .next (state.setPc p .intr) else .disabled
    | .proceed => proceed slots state p
    | .lsr idle => lsrStep state p idle
    | .kill => if (state.pc p).locked then .disabled else .next (kill state p)
    | .panic => .next { state with panicked := true }

/-- After `uartinit`; the bytes of the buffer do not matter. -/
def boot (buf : Nat → UInt8) : State where
  tx := { buf := buf, w := 0, r := 0 }
  lock := none
  panicked := false
  pc := fun _ => .idle
  accepted := []
  device := []

end Xv6.Uart
