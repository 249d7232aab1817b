import Xv6.Sched.Spinlock

/-! # Processes, CPUs and the locks of `kernel/proc.c`

Every CPU runs either `scheduler()` or the kernel thread of one process. A step
is the code of one CPU from one lock operation or `swtch` to the next, so any
interleaving of the CPUs is a run of this machine. What a process does between
the calls of `proc.c` is open: it may take and release locks of its own, sleep
and wake others, and be interrupted by the timer whenever its CPU holds no
lock. -/

namespace Xv6.Sched

/-- `enum procstate`. -/
inductive ProcState where
  | unused | used | sleeping | runnable | running | zombie
  deriving DecidableEq

/-- Sleep channels: the address of a process, or any other address. -/
inductive Chan where
  | proc (p : Nat)
  | other (chan : Nat)
  deriving DecidableEq

/-- `p->lock` of every process, `wait_lock`, and the locks of other code. -/
inductive Lock where
  | proc (p : Nat)
  | wait
  | other (lk : Nat)
  deriving DecidableEq

/-- A call of `sleep`: by code outside `proc.c` on a channel and a lock of its
own, or `sleep(p, &wait_lock)` by `wait`. -/
inductive SleepCall where
  | other (chan lk : Nat)
  | wait
  deriving DecidableEq

/-- The caller of a `wakeup`. -/
inductive WakeupReturn where
  | caller
  | reparent (status : Int) (child : Nat)
  | exit (status : Int)
  deriving DecidableEq

/-- Where the kernel thread of a process is. A name tells what has just been
done; `slot` is the table entry the code works on and `next` the one a loop
looks at next. -/
inductive Pc where
  /-- Outside the calls of `proc.c`. -/
  | free
  | forkret
  | sleepLocked (call : SleepCall)
  | sleepReleased (call : SleepCall)
  | sleepSched (call : SleepCall)
  | sleepResumed (call : SleepCall)
  | sleepRelock (call : SleepCall)
  | wakeup (chan : Option Chan) (next : Nat) (ret : WakeupReturn)
  | wakeupLocked (chan : Option Chan) (slot : Nat) (ret : WakeupReturn)
  | kill (pid next : Nat)
  | killLocked (pid slot : Nat)
  | reparent (status : Int) (next : Nat)
  | exitLock (status : Int)
  | exitLocked (status : Int)
  | exitSched
  | exited
  | fork (next : Nat)
  | forkLocked (slot : Nat)
  | forkFound (slot : Nat)
  | forkParent (slot : Nat)
  | forkParented (slot : Nat)
  | forkReady (slot : Nat)
  | forkReadyLocked (slot : Nat)
  | wait (next : Nat) (havekids : Bool)
  | waitLocked (slot : Nat)
  | waitKilled
  | waitKilledLocked
  | waitSleep
  | waitReturn
  deriving DecidableEq

/-- Where a thread is in the `yield` that a timer interrupt made it call. -/
inductive YieldPc where
  | locked
  | sched
  | resumed
  deriving DecidableEq

/-- The fields of `struct proc` that scheduling uses, and the process's kernel
thread: `pc` is the saved `context` while no CPU runs it. -/
structure Proc where
  state : ProcState
  chan : Option Chan
  killed : Bool
  xstate : Int
  pid : Nat
  parent : Option Nat
  pc : Pc
  yielding : Option YieldPc

/-- Where `scheduler()` is; `wake` is the `wakeup` of an interrupt handler that
runs under the handler's lock while the scheduler looks for a process. -/
inductive SchedPc where
  | scan (next : Nat)
  | locked (slot : Nat)
  | back (slot : Nat)
  | wake (chan lk next resume : Nat)
  | wakeLocked (chan lk slot resume : Nat)
  deriving DecidableEq

/-- Whose stack the CPU is on. -/
inductive Ctx where
  | scheduler (pc : SchedPc)
  | thread (p : Nat)
  deriving DecidableEq

/-- `struct cpu`: `proc`, and the loop variable of `scheduler()` that `context`
saves while a process runs. -/
structure Cpu where
  proc : Option Nat
  context : Nat
  ctx : Ctx

/-- What the history of a run records. -/
inductive Event where
  /-- A call of `sleep` by `p` has released its lock. -/
  | released (p : Nat) (call : SleepCall)
  /-- A call of `wakeup` has returned, made by a CPU that holds these locks. -/
  | woke (chan : Option Chan) (under : Lock → Bool)
  | allocated (slot pid : Nat)
  | exited (slot pid : Nat) (status : Int)
  | reported (caller slot pid : Nat) (status : Int) (parent : Option Nat)

/-- The history is not part of the kernel's state; no step depends on it. -/
structure State where
  proc : Nat → Proc
  cpu : Nat → Cpu
  spin : Spinlocks Lock
  nextpid : Nat
  history : List Event

namespace State

@[simps! -fullyApplied cpu spin history]
def setProc (state : State) (p : Nat) (proc : Proc) : State :=
  { state with proc := Function.update state.proc p proc }

@[simps! -fullyApplied cpu spin history]
def setPc (state : State) (p : Nat) (pc : Pc) : State :=
  state.setProc p { state.proc p with pc := pc }

@[simps! -fullyApplied proc spin history]
def setCtx (state : State) (c : Nat) (ctx : Ctx) : State :=
  { state with cpu := Function.update state.cpu c { state.cpu c with ctx := ctx } }

@[simps! -fullyApplied proc cpu spin history]
def setSpin (state : State) (spin : Spinlocks Lock) : State :=
  { state with spin := spin }

@[simps! -fullyApplied proc cpu spin history]
def record (state : State) (event : Event) : State :=
  { state with history := event :: state.history }

end State

/-- `initproc`: the process that `userinit` made. -/
def initproc : Nat := 0

/-- The body of the loop of `wakeup`, under the lock of the process. -/
def wakeProc (chan : Option Chan) (proc : Proc) : Proc :=
  if proc.state = .sleeping ∧ proc.chan = chan then { proc with state := .runnable } else proc

/-- The body of `kill` for the process with the right pid. -/
def killProc (proc : Proc) : Proc :=
  { proc with
    killed := true
    state := if proc.state = .sleeping then .runnable else proc.state }

/-- What `freeproc` does to the fields that scheduling uses. -/
def freeproc (proc : Proc) : Proc :=
  { proc with
    pid := 0, parent := none, chan := none, killed := false, xstate := 0, state := .unused }

/-- `allocproc` on the free entry that it found. -/
def allocproc (pid : Nat) (proc : Proc) : Proc :=
  { proc with pid := pid, state := .used, pc := .forkret, yielding := none }

/-- Where a thread goes on after `wakeup`. -/
def WakeupReturn.pc : WakeupReturn → Pc
  | .caller => .free
  | .reparent status child => .reparent status (child + 1)
  | .exit status => .exitLock status

/-- `chan` of a call of `sleep` by the process `p`. -/
def SleepCall.chan (p : Nat) : SleepCall → Chan
  | .other chan _ => .other chan
  | .wait => .proc p

/-- `lk` of a call of `sleep`. -/
def SleepCall.lock : SleepCall → Lock
  | .other _ lk => .other lk
  | .wait => .wait

/-- Where a thread goes on after `sleep`: `wait` starts its scan again. -/
def SleepCall.pc : SleepCall → Pc
  | .other .. => .free
  | .wait => .wait 0 false

/-- The calls that a thread may make. -/
inductive Call where
  | acquire (lk : Nat)
  | release (lk : Nat)
  | sleep (chan lk : Nat)
  | wakeup (chan : Nat)
  | kill (pid : Nat)
  | exit (status : Int)
  | fork
  | wait

/-- What a CPU does next, where there is a choice: a timer interrupt, a call, a
device interrupt in the scheduler, or a failure inside `fork` or `wait`. -/
inductive Choice where
  | proceed
  | timer
  | fail
  | call (call : Call)
  | interrupt (chan lk : Nat)

section Steps

variable (state : State) (c p : Nat)

/-- Take a lock and go on. -/
def acquiring (lk : Lock) (change : State → State) : Outcome State :=
  (state.spin.acquire c lk).map fun spin => change (state.setSpin spin)

/-- Release a lock and go on. -/
def releasing (lk : Lock) (change : State → State) : Outcome State :=
  (state.spin.release c lk).map fun spin => change (state.setSpin spin)

/-- `sched`: back to the scheduler of this CPU, behind its `swtch`. -/
def sched (proc : Proc) : Outcome State :=
  if state.spin.owner (.proc p) ≠ some c then .panic "sched p->lock"
  else if state.spin.noff c ≠ 1 then .panic "sched locks"
  else if (state.proc p).state = .running then .panic "sched running"
  else .next ((state.setProc p proc).setCtx c (.scheduler (.back (state.cpu c).context)))

/-- The calls of a thread. -/
def callStep : Call → Outcome State
  | .acquire lk => acquiring state c (.other lk) id
  | .release lk => releasing state c (.other lk) id
  | .sleep chan lk =>
    acquiring state c (.proc p) fun state =>
      state.setPc p (.sleepLocked (.other chan lk))
  | .wakeup chan => .next (state.setPc p (.wakeup (some (.other chan)) 0 .caller))
  | .kill pid => .next (state.setPc p (.kill pid 0))
  | .exit status =>
    if p = initproc then .panic "init exiting"
    else acquiring state c .wait fun state => state.setPc p (.reparent status 0)
  | .fork => .next (state.setPc p (.fork 0))
  | .wait => acquiring state c .wait fun state => state.setPc p (.wait 0 false)

/-- The steps of `sleep`, from the acquisition of `p->lock` on. -/
def sleepStep : Pc → Outcome State
  | .sleepLocked call =>
    releasing state c call.lock fun state =>
      (state.setPc p (.sleepReleased call)).record (.released p call)
  | .sleepReleased call =>
    .next (state.setProc p
      { state.proc p with
        chan := some (call.chan p), state := .sleeping, pc := .sleepSched call })
  | .sleepSched call => sched state c p { state.proc p with pc := .sleepResumed call }
  | .sleepResumed call =>
    releasing state c (.proc p) fun state =>
      state.setProc p { state.proc p with chan := none, pc := .sleepRelock call }
  | .sleepRelock call => acquiring state c call.lock fun state => state.setPc p call.pc
  | _ => .disabled

/-- The steps of `wakeup`. -/
def wakeupStep (slots : Nat) : Pc → Outcome State
  | .wakeup chan next ret =>
    if next < slots then
      if next = p then .next (state.setPc p (.wakeup chan (next + 1) ret))
      else
        acquiring state c (.proc next) fun state =>
          state.setPc p (.wakeupLocked chan next ret)
    else
      .next ((state.setPc p ret.pc).record (.woke chan fun lk => state.spin.owner lk = some c))
  | .wakeupLocked chan slot ret =>
    releasing state c (.proc slot) fun state =>
      (state.setProc slot (wakeProc chan (state.proc slot))).setPc p (.wakeup chan (slot + 1) ret)
  | _ => .disabled

/-- The steps of `kill`. -/
def killStep (slots : Nat) : Pc → Outcome State
  | .kill pid next =>
    if next < slots then
      acquiring state c (.proc next) fun state => state.setPc p (.killLocked pid next)
    else .next (state.setPc p .free)
  | .killLocked pid slot =>
    if (state.proc slot).pid = pid then
      releasing state c (.proc slot) fun state =>
        (state.setProc slot (killProc (state.proc slot))).setPc p .free
    else
      releasing state c (.proc slot) fun state => state.setPc p (.kill pid (slot + 1))
  | _ => .disabled

/-- The steps of `exit` under `wait_lock`. -/
def exitStep (slots : Nat) : Pc → Outcome State
  | .reparent status next =>
    if next < slots then
      if (state.proc next).parent = some p then
        .next ((state.setProc next { state.proc next with parent := some initproc }).setPc p
          (.wakeup (some (.proc initproc)) 0 (.reparent status next)))
      else .next (state.setPc p (.reparent status (next + 1)))
    else
      .next (state.setPc p (.wakeup ((state.proc p).parent.map .proc) 0 (.exit status)))
  | .exitLock status =>
    acquiring state c (.proc p) fun state => state.setPc p (.exitLocked status)
  | .exitLocked status =>
    releasing state c .wait fun state =>
      (state.setProc p
        { state.proc p with xstate := status, state := .zombie, pc := .exitSched }).record
        (.exited p (state.proc p).pid status)
  | .exitSched => sched state c p { state.proc p with pc := .exited }
  | .exited => .panic "zombie exit"
  | _ => .disabled

/-- The steps of `fork`; the memory and the files of the child are not part of
this model. -/
def forkStep (slots : Nat) : Pc → Outcome State
  | .fork next =>
    if next < slots then
      acquiring state c (.proc next) fun state => state.setPc p (.forkLocked next)
    else .next (state.setPc p .free)
  | .forkLocked slot =>
    if (state.proc slot).state = .unused then
      .next (({ state with nextpid := state.nextpid + 1 }.setProc slot
        (allocproc state.nextpid (state.proc slot))).setPc p (.forkFound slot)
        |>.record (.allocated slot state.nextpid))
    else
      releasing state c (.proc slot) fun state => state.setPc p (.fork (slot + 1))
  | .forkFound slot =>
    releasing state c (.proc slot) fun state =>
      (state.setProc slot { state.proc slot with parent := some p }).setPc p (.forkParent slot)
  | .forkParent slot =>
    acquiring state c .wait fun state =>
      (state.setProc slot { state.proc slot with parent := some p }).setPc p (.forkParented slot)
  | .forkParented slot =>
    releasing state c .wait fun state => state.setPc p (.forkReady slot)
  | .forkReady slot =>
    acquiring state c (.proc slot) fun state => state.setPc p (.forkReadyLocked slot)
  | .forkReadyLocked slot =>
    releasing state c (.proc slot) fun state =>
      (state.setProc slot { state.proc slot with state := .runnable }).setPc p .free
  | _ => .disabled

/-- The steps of `wait` under `wait_lock`. -/
def waitStep (slots : Nat) : Pc → Outcome State
  | .wait next havekids =>
    if next < slots then
      if (state.proc next).parent = some p then
        acquiring state c (.proc next) fun state => state.setPc p (.waitLocked next)
      else .next (state.setPc p (.wait (next + 1) havekids))
    else if havekids then .next (state.setPc p .waitKilled)
    else .next (state.setPc p .waitReturn)
  | .waitLocked slot =>
    if (state.proc slot).state = .zombie then
      releasing state c (.proc slot) fun state =>
        ((state.setProc slot (freeproc (state.proc slot))).setPc p .waitReturn).record
          (.reported p slot (state.proc slot).pid (state.proc slot).xstate (state.proc slot).parent)
    else
      releasing state c (.proc slot) fun state => state.setPc p (.wait (slot + 1) true)
  | .waitKilled =>
    acquiring state c (.proc p) fun state => state.setPc p .waitKilledLocked
  | .waitKilledLocked =>
    releasing state c (.proc p) fun state =>
      state.setPc p (if (state.proc p).killed then .waitReturn else .waitSleep)
  | .waitSleep =>
    acquiring state c (.proc p) fun state =>
      state.setPc p (.sleepLocked .wait)
  | .waitReturn => releasing state c .wait fun state => state.setPc p .free
  | _ => .disabled

/-- A memory allocation of `fork`, or the `copyout` of `wait`, fails. -/
def failStep : Pc → Outcome State
  | .forkFound slot =>
    releasing state c (.proc slot) fun state =>
      (state.setProc slot (freeproc (state.proc slot))).setPc p .free
  | .waitLocked slot =>
    if (state.proc slot).state = .zombie then
      releasing state c (.proc slot) fun state => state.setPc p .waitReturn
    else .disabled
  | _ => .disabled

/-- The next step of a thread at `pc`. -/
def proceed (slots : Nat) (pc : Pc) : Outcome State :=
  match pc with
  | .free => .disabled
  | .forkret => releasing state c (.proc p) fun state => state.setPc p .free
  | .sleepLocked .. | .sleepReleased .. | .sleepSched .. | .sleepResumed .. | .sleepRelock .. =>
    sleepStep state c p pc
  | .wakeup .. | .wakeupLocked .. => wakeupStep state c p slots pc
  | .kill .. | .killLocked .. => killStep state c p slots pc
  | .reparent .. | .exitLock .. | .exitLocked .. | .exitSched | .exited =>
    exitStep state c p slots pc
  | .fork .. | .forkLocked .. | .forkFound .. | .forkParent .. | .forkParented ..
  | .forkReady .. | .forkReadyLocked .. => forkStep state c p slots pc
  | .wait .. | .waitLocked .. | .waitKilled | .waitKilledLocked | .waitSleep | .waitReturn =>
    waitStep state c p slots pc

/-- The steps of `yield`, which a timer interrupt calls at any point where
interrupts are on. -/
def yieldStep : YieldPc → Outcome State
  | .locked =>
    .next (state.setProc p { state.proc p with state := .runnable, yielding := some .sched })
  | .sched => sched state c p { state.proc p with yielding := some .resumed }
  | .resumed =>
    releasing state c (.proc p) fun state =>
      state.setProc p { state.proc p with yielding := none }

/-- A step of the kernel thread of `p` on CPU `c`. -/
def threadStep (slots : Nat) (choice : Choice) : Outcome State :=
  match (state.proc p).yielding with
  | some pc =>
    match choice with
    | .proceed => yieldStep state c p pc
    | _ => .disabled
  | none =>
    match choice with
    | .proceed => proceed state c p slots (state.proc p).pc
    | .fail => failStep state c p (state.proc p).pc
    | .call call => if (state.proc p).pc = .free then callStep state c p call else .disabled
    | .timer =>
      if state.spin.noff c = 0 then
        acquiring state c (.proc p) fun state =>
          state.setProc p { state.proc p with yielding := some .locked }
      else .disabled
    | .interrupt .. => .disabled

/-- A step of `scheduler()` on CPU `c`. -/
def schedulerStep (slots : Nat) (pc : SchedPc) (choice : Choice) : Outcome State :=
  match pc, choice with
  | .scan next, .proceed =>
    if next < slots then
      acquiring state c (.proc next) fun state => state.setCtx c (.scheduler (.locked next))
    else .next (state.setCtx c (.scheduler (.scan 0)))
  | .scan next, .interrupt chan lk =>
    acquiring state c (.other lk) fun state =>
      state.setCtx c (.scheduler (.wake chan lk 0 next))
  | .locked slot, .proceed =>
    if (state.proc slot).state = .runnable then
      .next
        { state.setProc slot { state.proc slot with state := .running } with
          cpu := Function.update state.cpu c
            { proc := some slot, context := slot, ctx := .thread slot } }
    else
      releasing state c (.proc slot) fun state =>
        state.setCtx c (.scheduler (.scan (slot + 1)))
  | .back slot, .proceed =>
    releasing state c (.proc slot) fun state =>
      { state with
        cpu := Function.update state.cpu c
          { state.cpu c with proc := none, ctx := .scheduler (.scan (slot + 1)) } }
  | .wake chan lk next resume, .proceed =>
    if next < slots then
      acquiring state c (.proc next) fun state =>
        state.setCtx c (.scheduler (.wakeLocked chan lk next resume))
    else
      releasing state c (.other lk) fun after =>
        (after.setCtx c (.scheduler (.scan resume))).record
          (.woke (some (.other chan)) fun lk => state.spin.owner lk = some c)
  | .wakeLocked chan lk slot resume, .proceed =>
    releasing state c (.proc slot) fun state =>
      (state.setProc slot (wakeProc (some (.other chan)) (state.proc slot))).setCtx c
        (.scheduler (.wake chan lk (slot + 1) resume))
  | _, _ => .disabled

end Steps

/-- One step of a machine with `cpus` CPUs and `slots` entries in the process
table: the CPU that moves, and what it chooses. -/
def step (slots cpus : Nat) (state : State) : Nat × Choice → Outcome State
  | (c, choice) =>
    if c < cpus then
      match (state.cpu c).ctx with
      | .scheduler pc => schedulerStep state c slots pc choice
      | .thread p => threadStep state c p slots choice
    else .disabled

/-- After `userinit`, when the CPUs enter `scheduler()`. -/
def boot : State where
  proc := fun p =>
    if p = initproc then
      { state := .runnable, chan := none, killed := false, xstate := 0, pid := 1,
        parent := none, pc := .forkret, yielding := none }
    else
      { state := .unused, chan := none, killed := false, xstate := 0, pid := 0,
        parent := none, pc := .free, yielding := none }
  cpu := fun _ => { proc := none, context := 0, ctx := .scheduler (.scan 0) }
  spin := .initlock
  nextpid := 2
  history := [.allocated initproc 1]

end Xv6.Sched
