import Xv6.Foundation.Transition
import Mathlib.Logic.Function.Basic

/-! # The disk driver: `kernel/virtio_disk.c`

Any number of threads call `virtio_disk_rw` or run the interrupt handler
`virtio_disk_intr`, while the device takes requests from the `avail` ring and
completes them in any order. A step is what the driver does between two points
where the device or another thread can act. -/

namespace Xv6.Virtio

open Function (update)

/-- `NUM`: the number of descriptors. -/
def num : Nat := 8

/-- What the address of a descriptor points to. -/
inductive Addr where
  | null
  | op (i : Nat)
  | data (b : Nat)
  | status (i : Nat)
  deriving DecidableEq

/-- `struct virtq_desc`. -/
structure VirtqDesc where
  addr : Addr
  len : Nat
  flags : Nat
  next : Nat

/-- `VRING_DESC_F_NEXT`. -/
def flagNext : Nat := 1

/-- `VRING_DESC_F_WRITE`. -/
def flagWrite : Nat := 2

/-- `struct virtio_blk_req`. -/
structure VirtioBlkReq where
  type : Nat
  reserved : Nat
  sector : Nat

/-- `info[]`: what is known about the request whose chain starts here. -/
structure Info where
  b : Option Nat
  status : UInt8

/-- A ring and its index: the heads of chains, in `avail` and in `used`. -/
structure Virtq where
  idx : UInt16
  ring : Nat → Nat

/-- `struct disk`. -/
structure Disk where
  desc : Nat → VirtqDesc
  avail : Virtq
  used : Virtq
  free : Nat → Bool
  usedIdx : UInt16
  info : Nat → Info
  ops : Nat → VirtioBlkReq

/-- The arguments of a call of `virtio_disk_rw`, and the number of the call. -/
structure Request where
  b : Nat
  blockno : Nat
  write : Bool
  number : Nat
  deriving DecidableEq

/-- `idx[3]`. -/
structure Chain where
  head : Nat
  data : Nat
  status : Nat
  deriving DecidableEq

def Chain.toList (idx : Chain) : List Nat := [idx.head, idx.data, idx.status]

/-- Where a thread is: waiting for `vdisk_lock`, or at a place in the code under
the lock. -/
inductive Pc where
  | idle
  | acquire (req : Request)
  | alloc (req : Request)
  | format (req : Request) (idx : Chain)
  | ring (req : Request) (idx : Chain)
  | publish (req : Request) (idx : Chain)
  | wait (req : Request) (idx : Chain)
  | reacquire (req : Request) (idx : Chain)
  | finish (req : Request) (idx : Chain)
  | intrAcquire
  | intr
  deriving DecidableEq

/-- The sleep channels `&disk.free[0]` and `b`. -/
inductive Chan where
  | free
  | buf (b : Nat)
  deriving DecidableEq

structure Proc where
  pc : Pc
  asleep : Option Chan

/-- What the device has seen of the `avail` ring, and the heads of the chains it
works on. -/
structure Device where
  seen : UInt16
  inflight : List Nat

/-- What the history of a run records. -/
inductive Event where
  | published (req : Request)
  | taken (req : Request)
  | completed (req : Request)
  /-- `virtio_disk_intr` has cleared `b->disk` of the buffer `b` that it found. -/
  | cleared (req : Request) (b : Option Nat)
  | returned (req : Request)
  deriving DecidableEq

/-- `bdisk` is `b->disk` and `buflock` the holder of the sleep-lock of `b`. The
last three fields are not part of the system: the number of calls, the request
whose chain starts at a descriptor, and the history. -/
structure State where
  disk : Disk
  bdisk : Nat → Bool
  buflock : Nat → Option Nat
  lock : Option Nat
  proc : Nat → Proc
  device : Device
  calls : Nat
  request : Nat → Request
  history : List Event

namespace State

def setPc (state : State) (p : Nat) (pc : Pc) : State :=
  { state with proc := update state.proc p { state.proc p with pc := pc } }

def setLock (state : State) (lock : Option Nat) : State :=
  { state with lock := lock }

def setDisk (state : State) (disk : Disk) : State :=
  { state with disk := disk }

def record (state : State) (event : Event) : State :=
  { state with history := event :: state.history }

/-- `sleep(chan, &disk.vdisk_lock)`; the thread goes on at `pc`. -/
def sleep (state : State) (p : Nat) (chan : Chan) (pc : Pc) : State :=
  { state with
    lock := none
    proc := update state.proc p { pc := pc, asleep := some chan } }

def wakeup (state : State) (chan : Chan) : State :=
  { state with
    proc := fun p =>
      if (state.proc p).asleep = some chan then { state.proc p with asleep := none }
      else state.proc p }

end State

namespace Disk

/-- `alloc_desc`: the first free descriptor below `num`, from `i` on. -/
def allocDescFrom (disk : Disk) : Nat → Nat → Option Nat
  | 0, _ => none
  | fuel + 1, i => if disk.free i then some i else allocDescFrom disk fuel (i + 1)

def allocDesc (disk : Disk) : Option (Nat × Disk) :=
  (disk.allocDescFrom num 0).map fun i =>
    (i, { disk with free := update disk.free i false })

end Disk

/-- The descriptor is cleared and free, and whoever waits for one is woken. -/
def State.release (state : State) (i : Nat) : State :=
  (state.setDisk
    { state.disk with
      desc := update state.disk.desc i { addr := .null, len := 0, flags := 0, next := 0 }
      free := update state.disk.free i true }).wakeup .free

section Driver

variable (state : State)

def freeDesc (i : Nat) : Outcome State :=
  if num ≤ i then .panic "free_desc 1"
  else if state.disk.free i then .panic "free_desc 2"
  else .next (state.release i)

/-- `free_chain`; each round frees one descriptor, so `num` rounds are enough. -/
def freeChain : Nat → State → Nat → Outcome State
  | 0, _, _ => .disabled
  | rounds + 1, state, i =>
    let flag := (state.disk.desc i).flags
    let nxt := (state.disk.desc i).next
    match freeDesc state i with
    | .next state =>
      if flag &&& flagNext ≠ 0 then freeChain rounds state nxt else .next state
    | other => other

/-- Free the descriptors that `alloc3_desc` got before it failed. -/
def freeDescs : State → List Nat → Outcome State
  | state, [] => .next state
  | state, i :: rest =>
    match freeDesc state i with
    | .next state => freeDescs state rest
    | other => other

/-- `alloc3_desc`: three descriptors, or none and those it had got are free
again. -/
def alloc3Desc : Outcome (State × Option Chain) :=
  match state.disk.allocDesc with
  | none => .next (state, none)
  | some (head, disk) =>
    match disk.allocDesc with
    | none => (freeDescs (state.setDisk disk) [head]).map fun state => (state, none)
    | some (data, disk) =>
      match disk.allocDesc with
      | none => (freeDescs (state.setDisk disk) [head, data]).map fun state => (state, none)
      | some (status, disk) =>
        .next (state.setDisk disk, some { head := head, data := data, status := status })

/-- Format the three descriptors and record the buffer. -/
def formatChain (req : Request) (idx : Chain) : State :=
  let ops := update state.disk.ops idx.head
    { type := if req.write then 1 else 0, reserved := 0, sector := req.blockno * 2 }
  let desc := update state.disk.desc idx.head
    { addr := .op idx.head, len := 16, flags := flagNext, next := idx.data }
  let desc := update desc idx.data
    { addr := .data req.b, len := 1024,
      flags := (if req.write then 0 else flagWrite) ||| flagNext, next := idx.status }
  let desc := update desc idx.status
    { addr := .status idx.head, len := 1, flags := flagWrite, next := 0 }
  { state with
    disk := { state.disk with
      ops := ops, desc := desc
      info := update state.disk.info idx.head { b := some req.b, status := 255 } }
    bdisk := update state.bdisk req.b true
    request := update state.request idx.head req }

/-- `disk.avail->ring[disk.avail->idx % NUM] = idx[0]`. -/
def writeRing (head : Nat) : State :=
  state.setDisk
    { state.disk with
      avail := { state.disk.avail with
        ring := update state.disk.avail.ring (state.disk.avail.idx.toNat % num) head } }

/-- `disk.avail->idx += 1`. -/
def bumpAvail : State :=
  state.setDisk
    { state.disk with avail := { state.disk.avail with idx := state.disk.avail.idx + 1 } }

/-- `disk.info[idx[0]].b = 0`. -/
def forget (head : Nat) : State :=
  state.setDisk
    { state.disk with
      info := update state.disk.info head { state.disk.info head with b := none } }

/-- `b->disk = 0; wakeup(b)`, for the buffer that `info[]` names. -/
def clearBuf (b : Option Nat) : State :=
  match b with
  | some b => { state with bdisk := update state.bdisk b false }.wakeup (.buf b)
  | none => state

/-- `disk.used_idx += 1`. -/
def bumpUsed : State :=
  state.setDisk { state.disk with usedIdx := state.disk.usedIdx + 1 }

/-- One iteration of the loop of `virtio_disk_intr` for the used entry `id`. -/
def intrEntry (id : Nat) : Outcome State :=
  if (state.disk.info id).status ≠ 0 then .panic "virtio_disk_intr status"
  else
    .next ((bumpUsed (clearBuf state (state.disk.info id).b)).record
      (.cleared (state.request id) (state.disk.info id).b))

variable (p : Nat)

/-- The next step of the thread `p`. -/
def proceed : Outcome State :=
  match (state.proc p).pc with
  | .idle => .disabled
  | .acquire req =>
    if state.lock = none then .next ((state.setLock (some p)).setPc p (.alloc req))
    else .disabled
  | .alloc req =>
    match alloc3Desc state with
    | .next (state, some idx) => .next (state.setPc p (.format req idx))
    | .next (state, none) => .next (state.sleep p .free (.acquire req))
    | .panic message => .panic message
    | .disabled => .disabled
  | .format req idx => .next ((formatChain state req idx).setPc p (.ring req idx))
  | .ring req idx => .next ((writeRing state idx.head).setPc p (.publish req idx))
  | .publish req idx =>
    .next (((bumpAvail state).setPc p (.wait req idx)).record (.published req))
  | .wait req idx =>
    if state.bdisk req.b then .next (state.sleep p (.buf req.b) (.reacquire req idx))
    else .next (state.setPc p (.finish req idx))
  | .reacquire req idx =>
    if state.lock = none then .next ((state.setLock (some p)).setPc p (.wait req idx))
    else .disabled
  | .finish req idx =>
    (freeChain num (forget state idx.head) idx.head).map fun state =>
      ((state.setLock none).setPc p .idle).record (.returned req)
  | .intrAcquire =>
    if state.lock = none then .next ((state.setLock (some p)).setPc p .intr) else .disabled
  | .intr =>
    if state.disk.usedIdx = state.disk.used.idx then
      .next ((state.setLock none).setPc p .idle)
    else intrEntry state (state.disk.used.ring (state.disk.usedIdx.toNat % num))

/-- A call of `virtio_disk_rw` by a thread that holds the buffer's lock. -/
def callRw (b blockno : Nat) (write : Bool) : State :=
  { state with calls := state.calls + 1 }.setPc p
    (.acquire { b := b, blockno := blockno, write := write, number := state.calls })

end Driver

section Device

variable (state : State) (head : Nat)

/-- The device has taken the request whose chain starts at `head`. -/
def taken : State :=
  { state with
    device :=
      { seen := state.device.seen + 1, inflight := state.device.inflight ++ [head] } }.record
    (.taken (state.request head))

/-- The device looks at the `avail` ring and takes the next request. -/
def deviceTake : Outcome State :=
  if state.device.seen = state.disk.avail.idx then .disabled
  else .next (taken state (state.disk.avail.ring (state.device.seen.toNat % num)))

/-- Where the last descriptor of the chain says, the device writes the status. -/
def writeStatus : Nat → Info :=
  let data := (state.disk.desc head).next
  let status := (state.disk.desc data).next
  match (state.disk.desc status).addr with
  | .status i => update state.disk.info i { state.disk.info i with status := 0 }
  | _ => state.disk.info

/-- The device has written the status and put the head of the chain into the used
ring. -/
def completed : State :=
  { state with
    disk := { state.disk with
      info := writeStatus state head
      used :=
        { idx := state.disk.used.idx + 1
          ring := update state.disk.used.ring (state.disk.used.idx.toNat % num) head } }
    device := { state.device with inflight := state.device.inflight.erase head } }.record
    (.completed (state.request head))

/-- The device completes one of the requests it has taken. -/
def deviceComplete : Outcome State :=
  if head ∈ state.device.inflight then .next (completed state head) else .disabled

end Device

/-- What happens next: a thread takes or releases the lock of a buffer, calls
`virtio_disk_rw`, runs the interrupt handler or goes on; something ends the
sleep of a thread; or the device acts. -/
inductive Label where
  | lockBuf (p b : Nat)
  | unlockBuf (p b : Nat)
  | rw (p b blockno : Nat) (write : Bool)
  | interrupt (p : Nat)
  | proceed (p : Nat)
  | kill (p : Nat)
  | take
  | complete (head : Nat)

def step (state : State) : Label → Outcome State
  | .lockBuf p b =>
    if (state.proc p).pc = .idle ∧ state.buflock b = none then
      .next { state with buflock := update state.buflock b (some p) }
    else .disabled
  | .unlockBuf p b =>
    if (state.proc p).pc = .idle ∧ state.buflock b = some p then
      .next { state with buflock := update state.buflock b none }
    else .disabled
  | .rw p b blockno write =>
    if (state.proc p).pc = .idle ∧ state.buflock b = some p then
      .next (callRw state p b blockno write)
    else .disabled
  | .interrupt p =>
    if (state.proc p).pc = .idle then .next (state.setPc p .intrAcquire) else .disabled
  | .proceed p => if (state.proc p).asleep = none then proceed state p else .disabled
  | .kill p =>
    .next { state with
      proc := update state.proc p { state.proc p with asleep := none } }
  | .take => deviceTake state
  | .complete head => deviceComplete state head

/-- After `virtio_disk_init`. -/
def boot : State where
  disk :=
    { desc := fun _ => { addr := .null, len := 0, flags := 0, next := 0 }
      avail := { idx := 0, ring := fun _ => 0 }, used := { idx := 0, ring := fun _ => 0 }
      free := fun i => decide (i < num), usedIdx := 0, info := fun _ => { b := none, status := 0 }
      ops := fun _ => { type := 0, reserved := 0, sector := 0 } }
  bdisk := fun _ => false
  buflock := fun _ => none
  lock := none
  proc := fun _ => { pc := .idle, asleep := none }
  device := { seen := 0, inflight := [] }
  calls := 0
  request := fun _ => { b := 0, blockno := 0, write := false, number := 0 }
  history := []

end Xv6.Virtio
