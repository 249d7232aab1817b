import Xv6.Param
import Xv6.Foundation.Transition
import Mathlib.Data.List.Basic

/-! # System calls on the process table

`kernel/syscall.c` with the calls of `kernel/proc.c` and `kernel/sysproc.c` that
use the fields of a process shared by its successors in the same slot. A step is
a critical section of one `p->lock`, or code that only touches what belongs to the
process. What other handlers do and return, which child `wait` meets first, and
when a process is scheduled or woken is left open. -/

namespace Xv6.Syscalls

/-- `enum procstate`. -/
inductive ProcState where
  | unused | used | sleeping | runnable | running | zombie
  deriving DecidableEq

/-- The handlers, in the order of their numbers. -/
inductive Handler where
  | fork | exit | wait | pipe | read | kill | exec | fstat | chdir | dup | getpid | sbrk
  | sleep | uptime | «open» | write | mknod | unlink | link | mkdir | close | trace
  deriving DecidableEq

/-- The array `syscalls` from `SYS_fork`, which is 1, to `SYS_trace`, which is 22. -/
def handlers : List Handler :=
  [.fork, .exit, .wait, .pipe, .read, .kill, .exec, .fstat, .chdir, .dup, .getpid, .sbrk,
    .sleep, .uptime, .open, .write, .mknod, .unlink, .link, .mkdir, .close, .trace]

/-- `syscalls[num]`, if `num > 0 && num < NELEM(syscalls)`. -/
def syscalls (num : Int32) : Option Handler :=
  if num > 0 then handlers[num.toNatClampNeg - 1]? else none

/-- Where a process is; `num` is the number of the call that it has made. -/
inductive Pc where
  | user
  /-- In a handler that does not use the process table. -/
  | handler (num : Nat)
  /-- `fork`: about to look at a slot, to store the parent under `wait_lock`, and to
  make the child runnable. -/
  | fork (next : Nat)
  | forkParent (np : Nat)
  | forkReady (np : Nat)
  | wait
  /-- `kill`: about to look at a slot. -/
  | kill (pid : Int32) (next : Nat)
  /-- The handler has returned to `syscall`. -/
  | returned (num : Nat) (value : Int32)
  deriving DecidableEq

/-- The fields of `struct proc` that these calls use. The code does not have
`number`: it counts the processes that `fork` has made. -/
structure Proc where
  state : ProcState
  pid : Int32
  killed : Bool
  parent : Option Nat
  mask : Int32
  pc : Pc
  number : Nat

/-- What the history of a run records. -/
inductive Event where
  /-- `fork` has filled a slot for a new process; the first process has no parent. -/
  | created (number : Nat) (parent : Option Nat)
  | traced (number : Nat) (mask : Int32)
  /-- `kill` has found its pid in a slot. -/
  | killed (pid : Int32) (slot : Nat)
  /-- A handler has returned, and `syscall` has printed a line or not. -/
  | returned (number num : Nat) (printed : Bool)
  deriving DecidableEq

/-- No step depends on `created`, the number of processes so far, and on the
history. -/
structure State where
  proc : Nat → Proc
  nextpid : Int32
  created : Nat
  history : List Event

namespace State

def setProc (state : State) (p : Nat) (proc : Proc) : State :=
  { state with proc := Function.update state.proc p proc }

def setPc (state : State) (p : Nat) (pc : Pc) : State :=
  state.setProc p { state.proc p with pc := pc }

def setState (state : State) (p : Nat) (procState : ProcState) : State :=
  state.setProc p { state.proc p with state := procState }

def record (state : State) (event : Event) : State :=
  { state with history := event :: state.history }

end State

/-- `initproc`: the slot that `userinit` has filled. -/
def initproc : Nat := 0

/-- What `freeproc` does to these fields. -/
def freeproc (proc : Proc) : Proc :=
  { proc with pid := 0, parent := none, killed := false, state := .unused }

/-- The body of `kill` for the process with the right pid. -/
def killProc (proc : Proc) : Proc :=
  { proc with
    killed := true
    state := if proc.state = .sleeping then .runnable else proc.state }

/-- What `allocproc` and then `fork` store in the slot of the child. -/
def forkProc (pid : Int32) (number parent : Nat) (mask : Int32) (proc : Proc) : Proc :=
  { proc with
    pid := pid, state := .used, mask := mask, parent := some parent, pc := .user,
    number := number }

def reparent (p : Nat) (table : Nat → Proc) (q : Nat) : Proc :=
  if (table q).parent = some p then { table q with parent := some initproc } else table q

/-- The test of `syscall`: `(1 << num) & p->mask`. -/
def traces (num : Nat) (mask : Int32) : Bool :=
  ((1 : Int32) <<< (Int32.ofNat num)) &&& mask != 0

/-- What a process does next, where there is a choice, and what happens to it. -/
inductive Action where
  /-- The process makes a call: `a7` and the first argument. -/
  | trap (num arg : Int32)
  | proceed
  /-- An allocation in `fork` or the `copyout` of `wait` fails, or `wait` has no
  child to wait for. -/
  | fail
  /-- `wait` finds a child that has exited. -/
  | reap (q : Nat)
  /-- A handler that does not use the process table returns. -/
  | finish (value : Int32)
  | sleep
  | wakeup
  | schedule
  | yield
  deriving DecidableEq

section Steps

variable (state : State) (p : Nat)

/-- `syscall` up to the handler's first critical section. -/
def trapStep (num arg : Int32) : Outcome State :=
  match syscalls num with
  | none => .next state
  | some .fork => .next (state.setPc p (.fork 0))
  | some .exit =>
    if p = initproc then .panic "init exiting"
    else .next ({ state with proc := reparent p state.proc }.setState p .zombie)
  | some .wait => .next (state.setPc p .wait)
  | some .kill => .next (state.setPc p (.kill arg 0))
  | some .trace =>
    .next ((state.setProc p
      { state.proc p with mask := arg, pc := .returned num.toNatClampNeg 0 }).record
      (.traced (state.proc p).number arg))
  | some _ => .next (state.setPc p (.handler num.toNatClampNeg))

/-- `fork` looks at a slot. -/
def forkStep (next : Nat) (ok : Bool) : Outcome State :=
  if next < nproc then
    if (state.proc next).state = .unused then
      let allocated := { state with nextpid := state.nextpid + 1 }
      if ok then
        .next (({ allocated with created := state.created + 1 }.setPc p (.forkParent next)).setProc
          next (forkProc state.nextpid state.created p (state.proc p).mask (state.proc next))
          |>.record (.created state.created (some (state.proc p).number)))
      else
        .next ((allocated.setPc p (.returned 1 (-1))).setProc next (freeproc (state.proc next)))
    else .next (state.setPc p (.fork (next + 1)))
  else .next (state.setPc p (.returned 1 (-1)))

/-- `kill` looks at a slot. -/
def killStep (pid : Int32) (next : Nat) : Outcome State :=
  if next < nproc then
    if (state.proc next).pid = pid then
      .next (((state.setProc next (killProc (state.proc next))).setPc p (.returned 6 0)).record
        (.killed pid next))
    else .next (state.setPc p (.kill pid (next + 1)))
  else .next (state.setPc p (.returned 6 (-1)))

/-- The next step of the code of a process. -/
def proceed : Outcome State :=
  match (state.proc p).pc with
  | .fork next => forkStep state p next true
  | .forkParent np =>
    .next ((state.setPc p (.forkReady np)).setProc np { state.proc np with parent := some p })
  | .forkReady np =>
    .next ((state.setPc p (.returned 1 (state.proc np).pid)).setProc np
      { state.proc np with state := .runnable })
  | .kill pid next => killStep state p pid next
  | .returned num _ =>
    .next ((state.setPc p .user).record
      (.returned (state.proc p).number num (traces num (state.proc p).mask)))
  | .user | .handler _ | .wait => .disabled

/-- A step that fails. -/
def failStep : Outcome State :=
  match (state.proc p).pc with
  | .fork next =>
    if next < nproc ∧ (state.proc next).state = .unused then forkStep state p next false
    else .disabled
  | .wait => .next (state.setPc p (.returned 3 (-1)))
  | _ => .disabled

/-- `wait` frees the slot of a child. -/
def reapStep (q : Nat) : Outcome State :=
  if (state.proc p).pc = .wait ∧ q < nproc ∧ (state.proc q).parent = some p ∧
      (state.proc q).state = .zombie then
    .next ((state.setPc p (.returned 3 (state.proc q).pid)).setProc q (freeproc (state.proc q)))
  else .disabled

def finishStep (value : Int32) : Outcome State :=
  match (state.proc p).pc with
  | .handler num => .next (state.setPc p (.returned num value))
  | _ => .disabled

/-- Whether a process may sleep where it is. -/
def Pc.sleeps : Pc → Bool
  | .handler _ | .wait => true
  | _ => false

/-- What a process that runs can do. -/
def runningStep : Action → Outcome State
  | .trap num arg => if (state.proc p).pc = .user then trapStep state p num arg else .disabled
  | .proceed => proceed state p
  | .fail => failStep state p
  | .reap q => reapStep state p q
  | .finish value => finishStep state p value
  | .sleep => if (state.proc p).pc.sleeps then .next (state.setState p .sleeping) else .disabled
  | .yield => .next (state.setState p .runnable)
  | .wakeup => .disabled
  | .schedule => .disabled

end Steps

/-- One step: the process that moves, or to which something happens. -/
def step (state : State) : Nat × Action → Outcome State
  | (p, action) =>
    if p < nproc then
      match (state.proc p).state with
      | .running => runningStep state p action
      | .sleeping =>
        if action = .wakeup then .next (state.setState p .runnable) else .disabled
      | .runnable =>
        if action = .schedule then .next (state.setState p .running) else .disabled
      | _ => .disabled
    else .disabled

/-- After `userinit`. -/
def boot : State where
  proc := fun p =>
    if p = initproc then
      { state := .runnable, pid := 1, killed := false, parent := none, mask := 0, pc := .user,
        number := 0 }
    else
      { state := .unused, pid := 0, killed := false, parent := none, mask := 0, pc := .user,
        number := 0 }
  nextpid := 2
  created := 1
  history := [.created 0 none]

end Xv6.Syscalls
