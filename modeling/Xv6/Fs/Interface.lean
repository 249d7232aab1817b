import Xv6.Foundation.Exec
import Xv6.Fs.Format

/-! # What the code of the file system calls

The statements by which `fs.c` touches what processes share: the inode table, the
buffers, the log. The code itself is a program over this interface, and `answer` is
what the machine does with a call of the process `p` when nobody else acts at the
same time. -/

namespace Xv6.Fs

def ninode : Nat := 50

/-- `struct inode`. `lock` is the process that holds the sleep-lock, and `node` the
copy of the inode on disk. -/
structure Inode where
  dev : Nat
  inum : Nat
  ref : Nat
  lock : Option Nat
  valid : Bool
  node : Dinode

/-- A block is what its buffer holds, or would hold if it were read, and `held` is
the process that has the buffer locked. `logged` lists the blocks that `log_write`
has recorded since the last commit, and `committed` is the disk after that commit.
That the recorded blocks fit into the log is a matter of `Log`. -/
structure State where
  block : Nat → Block
  held : Nat → Option Nat
  committed : Nat → Block
  logged : List Nat
  outstanding : Nat
  itableLock : Option Nat
  inode : Nat → Inode

namespace State

@[simps! -fullyApplied held inode outstanding]
def setBlock (state : State) (b : Nat) (data : Block) : State :=
  { state with block := Function.update state.block b data }

@[simps! -fullyApplied block inode outstanding]
def setHeld (state : State) (b : Nat) (holder : Option Nat) : State :=
  { state with held := Function.update state.held b holder }

@[simps! -fullyApplied inode]
def setItable (state : State) (holder : Option Nat) : State :=
  { state with itableLock := holder }

@[simps! -fullyApplied held block outstanding]
def setInode (state : State) (ip : Nat) (inode : Inode) : State :=
  { state with inode := Function.update state.inode ip inode }

def setNode (state : State) (ip : Nat) (node : Dinode) : State :=
  state.setInode ip { state.inode ip with node := node }

def setRef (state : State) (ip ref : Nat) : State :=
  state.setInode ip { state.inode ip with ref := ref }

def setLock (state : State) (ip : Nat) (lock : Option Nat) : State :=
  state.setInode ip { state.inode ip with lock := lock }

/-- `log_write` records a block, once. -/
@[simps! -fullyApplied held block inode outstanding]
def record (state : State) (b : Nat) : State :=
  { state with logged := if b ∈ state.logged then state.logged else state.logged ++ [b] }

/-- `end_op`: the last operation commits. -/
def endOp (state : State) : State :=
  if state.outstanding = 1 then
    { state with
      outstanding := 0
      logged := []
      committed := fun b => if b ∈ state.logged then state.block b else state.committed b }
  else { state with outstanding := state.outstanding - 1 }

end State

inductive Op where
  /-- `acquire(&itable.lock)`, `release(&itable.lock)`, and the table in between. -/
  | acquire
  | release
  | itable
  /-- `iget` takes the slot for another inode, and sets `ref` and `valid`. -/
  | refill (ip dev inum : Nat)
  /-- `ip->ref++`, `ip->ref--`. -/
  | incRef (ip : Nat)
  | decRef (ip : Nat)
  /-- The fields of `*ip`, and the assignments to `valid` and to the others. -/
  | inode (ip : Nat)
  | setValid (ip : Nat) (valid : Bool)
  | update (ip : Nat) (change : Dinode → Dinode)
  /-- The sleep-lock of an inode. -/
  | acquiresleep (ip : Nat)
  | releasesleep (ip : Nat)
  | holdingsleep (ip : Nat)
  /-- Buffers; `store` assigns to `bp->data`. -/
  | bread (b : Nat)
  | store (b : Nat) (change : Block → Block)
  | logWrite (b : Nat)
  | brelse (b : Nat)
  /-- `begin_op`, `end_op`. -/
  | beginOp
  | endOp

abbrev Op.Res : Op → Type
  | .itable => Nat → Inode
  | .inode _ => Inode
  | .holdingsleep _ => Bool
  | .bread _ => Block
  | _ => Unit

/-- A program of the file system. -/
abbrev FsProg := Prog Op Op.Res

/-- `acquiresleep` by a process that holds a spin lock panics if it has to wait. -/
def waits (p : Nat) (state : State) {Value : Type} : Outcome Value :=
  if state.itableLock = some p then .panic "sched locks" else .disabled

/-- What the machine does with a call of the process `p`. -/
def answer (p : Nat) : Prog.Exec Op Op.Res State
  | .acquire, state =>
    if state.itableLock = none then .next ((), state.setItable (some p))
    else if state.itableLock = some p then .panic "acquire"
    else .disabled
  | .release, state =>
    if state.itableLock = some p then .next ((), state.setItable none)
    else .panic "release"
  | .itable, state => .next (state.inode, state)
  | .refill ip dev inum, state =>
    .next ((), state.setInode ip { state.inode ip with dev, inum, ref := 1, valid := false })
  | .incRef ip, state => .next ((), state.setRef ip ((state.inode ip).ref + 1))
  | .decRef ip, state => .next ((), state.setRef ip ((state.inode ip).ref - 1))
  | .inode ip, state => .next (state.inode ip, state)
  | .setValid ip valid, state =>
    .next ((), state.setInode ip { state.inode ip with valid })
  | .update ip change, state => .next ((), state.setNode ip (change (state.inode ip).node))
  | .acquiresleep ip, state =>
    if (state.inode ip).lock = none then .next ((), state.setLock ip (some p))
    else waits p state
  | .releasesleep ip, state => .next ((), state.setLock ip none)
  | .holdingsleep ip, state => .next (decide ((state.inode ip).lock = some p), state)
  | .bread b, state =>
    if state.held b = none then .next (state.block b, state.setHeld b (some p))
    else waits p state
  | .store b change, state => .next ((), state.setBlock b (change (state.block b)))
  | .logWrite b, state =>
    if state.outstanding < 1 then .panic "log_write outside of trans"
    else .next ((), state.record b)
  | .brelse b, state =>
    if state.held b = some p then .next ((), state.setHeld b none) else .panic "brelse"
  | .beginOp, state => .next ((), { state with outstanding := state.outstanding + 1 })
  | .endOp, state => .next ((), state.endOp)

/-! ## The calls as programs -/

section Programs

variable (ip b : Nat)

def acquire : FsProg Unit := .call .acquire .ret

def release : FsProg Unit := .call .release .ret

def itable : FsProg (Nat → Inode) := .call .itable .ret

def refill (dev inum : Nat) : FsProg Unit := .call (.refill ip dev inum) .ret

def incRef : FsProg Unit := .call (.incRef ip) .ret

def decRef : FsProg Unit := .call (.decRef ip) .ret

def inode : FsProg Inode := .call (.inode ip) .ret

def setValid (valid : Bool) : FsProg Unit := .call (.setValid ip valid) .ret

def update (change : Dinode → Dinode) : FsProg Unit := .call (.update ip change) .ret

def acquiresleep : FsProg Unit := .call (.acquiresleep ip) .ret

def releasesleep : FsProg Unit := .call (.releasesleep ip) .ret

def holdingsleep : FsProg Bool := .call (.holdingsleep ip) .ret

def bread : FsProg Block := .call (.bread b) .ret

def store (change : Block → Block) : FsProg Unit := .call (.store b change) .ret

def logWrite : FsProg Unit := .call (.logWrite b) .ret

def brelse : FsProg Unit := .call (.brelse b) .ret

def beginOp : FsProg Unit := .call .beginOp .ret

def endOp : FsProg Unit := .call .endOp .ret

end Programs

end Xv6.Fs
