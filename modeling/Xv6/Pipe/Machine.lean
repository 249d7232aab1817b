import Xv6.Foundation.Transition
import Mathlib.Logic.Function.Basic

/-! # Pipes: `kernel/pipe.c`

One pipe and any number of processes that read, write and close it. A step is
the code between two points where another process can act: an iteration of a
loop, a lock operation, or the visit of `wakeup` to one process. `kill` can come
between any two steps, also while `pi->lock` is held. -/

namespace Xv6.Pipes

def pipeSize : Nat := 512

/-- `struct pipe`, without its lock. -/
structure Pipe where
  data : Nat → UInt8
  nread : UInt32
  nwrite : UInt32
  readopen : Bool
  writeopen : Bool

/-- What `pipealloc` puts into a new page, whose bytes are arbitrary. -/
def pipealloc (data : Nat → UInt8) : Pipe :=
  { data := data, nread := 0, nwrite := 0, readopen := true, writeopen := true }

/-- `pi->nwrite == pi->nread + PIPESIZE`. -/
def Pipe.full (pi : Pipe) : Bool := pi.nwrite = pi.nread + 512

/-- `pi->nread == pi->nwrite`. -/
def Pipe.empty (pi : Pipe) : Bool := pi.nread = pi.nwrite

/-- `pi->data[pi->nwrite++ % PIPESIZE] = ch`. -/
def Pipe.put (pi : Pipe) (ch : UInt8) : Pipe :=
  { pi with
    data := Function.update pi.data (pi.nwrite.toNat % pipeSize) ch
    nwrite := pi.nwrite + 1 }

/-- The byte that `pi->data[pi->nread++ % PIPESIZE]` reads. -/
def Pipe.first (pi : Pipe) : UInt8 := pi.data (pi.nread.toNat % pipeSize)

def Pipe.take (pi : Pipe) : Pipe := { pi with nread := pi.nread + 1 }

/-- The sleep channels `&pi->nread` and `&pi->nwrite`. -/
inductive Chan where
  | nread
  | nwrite
  deriving DecidableEq

/-- A loop that sleeps: `pipewrite` with `i` bytes of `n` written, or the first
loop of `piperead`. -/
inductive Loop where
  | write (i : Nat) (n : Int)
  | read (n : Int)
  deriving DecidableEq

def Loop.chan : Loop → Chan
  | .write .. => .nwrite
  | .read .. => .nread

/-- What a process does once it has `pi->lock`. -/
inductive Entry where
  | loop (loop : Loop)
  | close (writable : Bool)
  deriving DecidableEq

/-- What follows a `wakeup`: `pipewrite` goes to sleep, or the call releases
`pi->lock` and returns, or `pipeclose` looks whether it was the last. -/
inductive WakeupReturn where
  | sleep (i : Nat) (n : Int)
  | release (result : Int)
  | close
  deriving DecidableEq

/-- Where a process is. In `pipewrite` the value of `i` when the process last
got `pi->lock` is kept beside `i`; the code does not have it. -/
inductive Pc where
  | idle
  | acquire (entry : Entry)
  | write (i : Nat) (n : Int) (start : Nat)
  | writeChecked (i : Nat) (n : Int) (start : Nat)
  | read (n : Int)
  | copy (i : Nat) (n : Int)
  | wakeup (chan : Chan) (next : Nat) (ret : WakeupReturn)
  | sleepLocked (loop : Loop)
  | sleepReleased (loop : Loop)
  | sleeping (loop : Loop)
  | release (result : Int)
  | close
  | kfree
  deriving DecidableEq

/-- `p->lock` is taken: only `sleep` keeps it over a step. -/
def Pc.locked : Pc → Bool
  | .sleepLocked _ | .sleepReleased _ => true
  | _ => false

/-- A process; `result` is what its last call returned. -/
structure Proc where
  pc : Pc
  killed : Bool
  result : Int

/-- `put` and `taken` are the bytes that have been put into the buffer and taken
out of it so far; no step depends on them. -/
structure State where
  pipe : Pipe
  lock : Option Nat
  proc : Nat → Proc
  freed : Bool
  put : List UInt8
  taken : List UInt8

namespace State

def setProc (state : State) (p : Nat) (proc : Proc) : State :=
  { state with proc := Function.update state.proc p proc }

def setPc (state : State) (p : Nat) (pc : Pc) : State :=
  state.setProc p { state.proc p with pc := pc }

def setPipe (state : State) (pipe : Pipe) : State :=
  { state with pipe := pipe }

def setLock (state : State) (lock : Option Nat) : State :=
  { state with lock := lock }

/-- A byte goes into the buffer. -/
def putByte (state : State) (ch : UInt8) : State :=
  { state with pipe := state.pipe.put ch, put := state.put ++ [ch] }

/-- A byte comes out of the buffer. -/
def takeByte (state : State) : State :=
  { state with pipe := state.pipe.take, taken := state.taken ++ [state.pipe.first] }

/-- Release `pi->lock` and return from the call. -/
def returns (state : State) (p : Nat) (result : Int) : State :=
  (state.setLock none).setProc p { state.proc p with pc := .idle, result := result }

end State

/-- The calls of a process. -/
inductive Call where
  | pipewrite (n : Int)
  | piperead (n : Int)
  | pipeclose (writable : Bool)

def Call.entry : Call → Entry
  | .pipewrite n => .loop (.write 0 n)
  | .piperead n => .loop (.read n)
  | .pipeclose writable => .close writable

/-- A step of a process: a call, the next step of the code, or a step that moves
a byte, with the outcome of `copyin` and `copyout`; or somebody kills it. -/
inductive Action where
  | call (call : Call)
  | proceed
  | copyin (ch : Option UInt8)
  | copyout (ok : Bool)
  | kill

section Steps

variable (slots : Nat) (state : State) (p : Nat)

/-- `acquire(&pi->lock)` by a process that goes on with `entry`. -/
def enter : Entry → State
  | .loop (.write i n) => (state.setLock (some p)).setPc p (.write i n i)
  | .loop (.read n) => (state.setLock (some p)).setPc p (.read n)
  | .close true =>
    ((state.setLock (some p)).setPipe { state.pipe with writeopen := false }).setPc p
      (.wakeup .nread 0 .close)
  | .close false =>
    ((state.setLock (some p)).setPipe { state.pipe with readopen := false }).setPc p
      (.wakeup .nwrite 0 .close)

/-- Where a process goes on after `wakeup`. -/
def WakeupReturn.pc : WakeupReturn → Pc
  | .sleep i n => .sleepLocked (.write i n)
  | .release result => .release result
  | .close => .close

/-- The body of the loop of `wakeup` for the process `slot`. -/
def wake (chan : Chan) (slot : Nat) : State :=
  match (state.proc slot).pc with
  | .sleeping loop =>
    if loop.chan = chan then state.setPc slot (.acquire (.loop loop)) else state
  | _ => state

/-- `kill`: a sleeping process becomes runnable, and then acquires `pi->lock`
again. -/
def kill : State :=
  match (state.proc p).pc with
  | .sleeping loop =>
    state.setProc p { state.proc p with killed := true, pc := .acquire (.loop loop) }
  | _ => state.setProc p { state.proc p with killed := true }

/-- The next step of the code of `p`. -/
def proceed : Outcome State :=
  match (state.proc p).pc with
  | .idle | .sleeping _ => .disabled
  | .acquire entry =>
    if state.lock = none then .next (enter state p entry) else .disabled
  | .write i n start =>
    if (i : Int) < n then
      if state.pipe.readopen = false ∨ (state.proc p).killed then
        .next (state.setPc p (.release (-1)))
      else .next (state.setPc p (.writeChecked i n start))
    else .next (state.setPc p (.wakeup .nread 0 (.release i)))
  | .writeChecked i n _ =>
    if state.pipe.full then .next (state.setPc p (.wakeup .nread 0 (.sleep i n)))
    else .disabled
  | .read n =>
    if state.pipe.empty ∧ state.pipe.writeopen then
      if (state.proc p).killed then .next (state.setPc p (.release (-1)))
      else .next (state.setPc p (.sleepLocked (.read n)))
    else .next (state.setPc p (.copy 0 n))
  | .copy i n =>
    if (i : Int) < n ∧ state.pipe.empty = false then .disabled
    else .next (state.setPc p (.wakeup .nwrite 0 (.release i)))
  | .wakeup chan next ret =>
    if next < slots then
      if next = p then .next (state.setPc p (.wakeup chan (next + 1) ret))
      else if (state.proc next).pc.locked then .disabled
      else .next ((wake state chan next).setPc p (.wakeup chan (next + 1) ret))
    else .next (state.setPc p ret.pc)
  | .sleepLocked loop => .next ((state.setLock none).setPc p (.sleepReleased loop))
  | .sleepReleased loop => .next (state.setPc p (.sleeping loop))
  | .release result => .next (state.returns p result)
  | .close =>
    if state.pipe.readopen = false ∧ state.pipe.writeopen = false then
      .next ((state.setLock none).setPc p .kfree)
    else .next (state.returns p 0)
  | .kfree => .next ({ state with freed := true }.setPc p .idle)

/-- `copyin` of one byte in `pipewrite`, which fails without a byte. -/
def copyinStep (ch : Option UInt8) : Outcome State :=
  match (state.proc p).pc with
  | .writeChecked i n start =>
    if state.pipe.full then .disabled
    else
      match ch with
      | some ch => .next ((state.putByte ch).setPc p (.write (i + 1) n start))
      | none => .next (state.setPc p (.wakeup .nread 0 (.release i)))
  | _ => .disabled

/-- The body of the second loop of `piperead`: a byte is taken and copied out. -/
def copyoutStep (ok : Bool) : Outcome State :=
  match (state.proc p).pc with
  | .copy i n =>
    if (i : Int) < n ∧ state.pipe.empty = false then
      .next (state.takeByte.setPc p
        (if ok then .copy (i + 1) n else .wakeup .nwrite 0 (.release i)))
    else .disabled
  | _ => .disabled

end Steps

/-- One step of a system with `slots` entries in the process table. Nothing
happens to the pipe after `kfree`. -/
def step (slots : Nat) (state : State) : Nat × Action → Outcome State
  | (p, action) =>
    if slots ≤ p ∨ state.freed then .disabled
    else
      match action with
      | .call call =>
        if (state.proc p).pc = .idle then .next (state.setPc p (.acquire call.entry))
        else .disabled
      | .proceed => proceed slots state p
      | .copyin ch => copyinStep state p ch
      | .copyout ok => copyoutStep state p ok
      | .kill => if (state.proc p).pc.locked then .disabled else .next (kill state p)

/-- A new pipe; no process uses it yet. -/
def boot (data : Nat → UInt8) (killed : Nat → Bool) : State where
  pipe := pipealloc data
  lock := none
  proc := fun p => { pc := .idle, killed := killed p, result := 0 }
  freed := false
  put := []
  taken := []

end Xv6.Pipes
