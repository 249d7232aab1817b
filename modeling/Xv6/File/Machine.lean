import Xv6.Param
import Xv6.Foundation.Transition
import Mathlib.Data.List.Basic

/-! # Open files: `kernel/file.c` and the calls that use it

Any number of processes open, duplicate and close files and pipes, fork and exit.
A step is a critical section of `ftable.lock` or `pi->lock`, or code that only
touches what belongs to the process. What the file system and the memory
allocator answer is part of the label of a step. -/

namespace Xv6.Files

open Function (update)

inductive FileType where
  | none
  | pipe
  | inode
  | device
  deriving DecidableEq

/-- `struct file`. The code does not have `number`: it counts the files that have
been opened, and is the number of the one that the structure stands for. -/
structure File where
  type : FileType
  ref : Nat
  readable : Bool
  writable : Bool
  pipe : Nat
  ip : Nat
  number : Nat
  deriving DecidableEq

/-- The fields of `struct pipe` that tell which ends are open. -/
structure Pipe where
  readopen : Bool
  writeopen : Bool
  deriving DecidableEq

/-- Whether one end of a pipe is open. -/
def Pipe.isOpen (pi : Pipe) (writable : Bool) : Bool :=
  if writable then pi.writeopen else pi.readopen

/-- The pipe after one of its ends is closed. -/
def Pipe.close (pi : Pipe) (writable : Bool) : Pipe :=
  if writable then { pi with writeopen := false } else { pi with readopen := false }

/-- What `sys_open` has found: an inode, and how to open it. -/
structure Found where
  ip : Nat
  device : Bool
  omode : Nat
  deriving DecidableEq

/-- What follows a `fileclose`: the call returns, or closes another file, or the
loop of `exit` goes on with the descriptor it has closed. -/
inductive Cont where
  | done
  | fileclose (f : Nat)
  | exit (fd : Nat)
  deriving DecidableEq

/-- Where a process is. -/
inductive Pc where
  | user
  /-- `sys_open`: about to call `filealloc`, to call `fdalloc`, and to set the
  fields of the file. -/
  | openFound (found : Found)
  | openFile (found : Found) (f : Nat)
  | openStored (found : Found) (f : Nat)
  /-- `pipealloc`: about to call `filealloc` for the first and the second time, to
  call `kalloc`, and to set the fields. -/
  | pipeStart
  | pipeFile (rf : Nat)
  | pipeFiles (rf wf : Nat)
  | pipePage (rf wf pi : Nat)
  /-- `sys_pipe`: about to call `fdalloc` for the first and the second time, and
  `copyout`. -/
  | pipeMade (rf wf : Nat)
  | pipeStored (rf wf fd0 : Nat)
  | pipeCopy (rf wf fd0 fd1 : Nat)
  /-- `sys_dup`: about to call `filedup`. -/
  | dupStored (f fd : Nat)
  /-- `fileclose`: about to enter its critical section, to call `pipeclose` or
  `iput`, and to free the page of the pipe. -/
  | fileclose (f : Nat) (cont : Cont)
  | pipeclose (ff : File) (cont : Cont)
  | kfree (pi : Nat) (cont : Cont)
  | iput (ff : File) (cont : Cont)
  /-- `fork`: about to call `allocproc`, `uvmcopy` and `filedup`, and to store. -/
  | forkStart
  | forkCopy (np : Nat)
  | forkDup (np fd : Nat)
  | forkStore (np fd f : Nat)
  /-- `exit`: at the head of its loop, and after its `fileclose`. -/
  | exitLoop (fd : Nat)
  | exitClear (fd : Nat)
  deriving DecidableEq

/-- `enum procstate`, apart from the difference of the states that run. -/
inductive ProcState where
  | unused
  | used
  | alive
  | zombie
  deriving DecidableEq

structure Proc where
  state : ProcState
  ofile : Nat → Option Nat
  pc : Pc

/-- The tables; a pipe is named by its page. The last four fields are history:
how often a page has been allocated for a pipe and freed, how many files have been
opened, and how often the final `pipeclose` or `iput` of each has been made. -/
structure State where
  file : Nat → File
  pipe : Nat → Pipe
  proc : Nat → Proc
  allocs : Nat → Nat
  frees : Nat → Nat
  opened : Nat
  closes : Nat → Nat

namespace State

def setFile (state : State) (f : Nat) (file : File) : State :=
  { state with file := update state.file f file }

def setRef (state : State) (f ref : Nat) : State :=
  state.setFile f { state.file f with ref := ref }

def setPipe (state : State) (pi : Nat) (pipe : Pipe) : State :=
  { state with pipe := update state.pipe pi pipe }

def setProc (state : State) (p : Nat) (proc : Proc) : State :=
  { state with proc := update state.proc p proc }

def setPc (state : State) (p : Nat) (pc : Pc) : State :=
  state.setProc p { state.proc p with pc := pc }

/-- `p->ofile[fd] = f`. -/
def setFd (state : State) (p fd : Nat) (f : Option Nat) : State :=
  state.setProc p { state.proc p with ofile := update (state.proc p).ofile fd f }

/-- Count a final `pipeclose` or `iput`. -/
def countClose (state : State) (number : Nat) : State :=
  { state with closes := update state.closes number (state.closes number + 1) }

end State

/-- The slot that `filealloc` takes. -/
def freeFile (state : State) : Option Nat :=
  (List.range nfile).find? fun f => (state.file f).ref == 0

/-- The descriptor that `fdalloc` takes. -/
def freeFd (proc : Proc) : Option Nat :=
  (List.range nofile).find? fun fd => (proc.ofile fd).isNone

def argfd (proc : Proc) (fd : Int) : Option Nat :=
  if fd < 0 ∨ fd ≥ nofile then none else proc.ofile fd.toNat

def Cont.pc : Cont → Pc
  | .done => .user
  | .fileclose f => .fileclose f .done
  | .exit fd => .exitClear fd

/-- The calls of a process. -/
inductive Call where
  /-- `sys_open`, with what `create` or `namei` has found. -/
  | open (found : Option Found)
  | pipe
  | dup (fd : Int)
  | close (fd : Int)
  | fork
  | exit
  /-- `wait` frees the slot of a process that has ended. -/
  | wait (q : Nat)

/-- A step of a process: a call, or the next step of the code, which may depend
on what `kalloc`, `copyout`, `allocproc` or `uvmcopy` answers. -/
inductive Action where
  | call (call : Call)
  | proceed
  | kalloc (page : Option Nat)
  | copyout (ok : Bool)
  | allocproc (np : Option Nat)
  | uvmcopy (ok : Bool)

section Steps

variable (state : State) (p : Nat)

/-- The code of a call up to its first critical section. -/
def enter : Call → Outcome State
  | .open none => .next state
  | .open (some found) => .next (state.setPc p (.openFound found))
  | .pipe => .next (state.setPc p .pipeStart)
  | .dup fd =>
    match argfd (state.proc p) fd with
    | none => .next state
    | some f =>
      match freeFd (state.proc p) with
      | none => .next state
      | some new => .next ((state.setFd p new (some f)).setPc p (.dupStored f new))
  | .close fd =>
    match argfd (state.proc p) fd with
    | none => .next state
    | some f => .next ((state.setFd p fd.toNat none).setPc p (.fileclose f .done))
  | .fork => .next (state.setPc p .forkStart)
  | .exit => .next (state.setPc p (.exitLoop 0))
  | .wait q =>
    if q < nproc ∧ (state.proc q).state = .zombie then
      .next (state.setProc q { state.proc q with state := .unused })
    else .disabled

/-- The critical section of `fileclose`. -/
def closeStep (f : Nat) (cont : Cont) : Outcome State :=
  let file := state.file f
  if file.ref < 1 then .panic "fileclose"
  else if file.ref - 1 > 0 then .next ((state.setRef f (file.ref - 1)).setPc p cont.pc)
  else
    let state := state.setFile f { file with ref := 0, type := .none }
    match file.type with
    | .pipe => .next (state.setPc p (.pipeclose file cont))
    | .inode | .device => .next (state.setPc p (.iput file cont))
    | .none => .next (state.setPc p cont.pc)

/-- The critical section of `pipeclose`. -/
def pipecloseStep (ff : File) (cont : Cont) : State :=
  let pi := (state.pipe ff.pipe).close ff.writable
  let state := (state.setPipe ff.pipe pi).countClose ff.number
  if pi.readopen = false ∧ pi.writeopen = false then state.setPc p (.kfree ff.pipe cont)
  else state.setPc p cont.pc

/-- `sys_open` sets the fields of the file. -/
def openFields (found : Found) (f : Nat) : State :=
  { state with opened := state.opened + 1 }.setFile f
    { state.file f with
      type := if found.device then .device else .inode
      ip := found.ip
      readable := found.omode &&& 1 == 0
      writable := found.omode &&& 1 != 0 || found.omode &&& 2 != 0
      number := state.opened }

/-- `pipealloc` sets the fields of the pipe and of its two files. -/
def pipeFields (rf wf pi : Nat) : State :=
  let state := state.setPipe pi { readopen := true, writeopen := true }
  let first := state.setFile rf
    { state.file rf with
      type := .pipe, readable := true, writable := false, pipe := pi, number := state.opened }
  { first with opened := state.opened + 2 }.setFile wf
    { first.file wf with
      type := .pipe, readable := false, writable := true, pipe := pi, number := state.opened + 1 }

/-- The next step of the code of `p`. -/
def proceed : Outcome State :=
  match (state.proc p).pc with
  | .openFound found =>
    match freeFile state with
    | none => .next (state.setPc p .user)
    | some f => .next ((state.setRef f 1).setPc p (.openFile found f))
  | .openFile found f =>
    match freeFd (state.proc p) with
    | none => .next (state.setPc p (.fileclose f .done))
    | some fd => .next ((state.setFd p fd (some f)).setPc p (.openStored found f))
  | .openStored found f => .next ((openFields state found f).setPc p .user)
  | .pipeStart =>
    match freeFile state with
    | none => .next (state.setPc p .user)
    | some rf => .next ((state.setRef rf 1).setPc p (.pipeFile rf))
  | .pipeFile rf =>
    match freeFile state with
    | none => .next (state.setPc p (.fileclose rf .done))
    | some wf => .next ((state.setRef wf 1).setPc p (.pipeFiles rf wf))
  | .pipePage rf wf pi => .next ((pipeFields state rf wf pi).setPc p (.pipeMade rf wf))
  | .pipeMade rf wf =>
    match freeFd (state.proc p) with
    | none => .next (state.setPc p (.fileclose rf (.fileclose wf)))
    | some fd0 => .next ((state.setFd p fd0 (some rf)).setPc p (.pipeStored rf wf fd0))
  | .pipeStored rf wf fd0 =>
    match freeFd (state.proc p) with
    | none =>
      .next ((state.setFd p fd0 none).setPc p (.fileclose rf (.fileclose wf)))
    | some fd1 => .next ((state.setFd p fd1 (some wf)).setPc p (.pipeCopy rf wf fd0 fd1))
  | .dupStored f _ =>
    if (state.file f).ref < 1 then .panic "filedup"
    else .next ((state.setRef f ((state.file f).ref + 1)).setPc p .user)
  | .fileclose f cont => closeStep state p f cont
  | .pipeclose ff cont => .next (pipecloseStep state p ff cont)
  | .kfree pi cont =>
    .next ({ state with
      frees := update state.frees pi (state.frees pi + 1) }.setPc p cont.pc)
  | .iput ff cont => .next ((state.countClose ff.number).setPc p cont.pc)
  | .forkDup np fd =>
    if fd < nofile then
      match (state.proc p).ofile fd with
      | none => .next (state.setPc p (.forkDup np (fd + 1)))
      | some f =>
        if (state.file f).ref < 1 then .panic "filedup"
        else
          .next ((state.setRef f ((state.file f).ref + 1)).setPc p (.forkStore np fd f))
    else
      .next ((state.setPc p .user).setProc np { state.proc np with state := .alive })
  | .forkStore np fd f =>
    .next ((state.setPc p (.forkDup np (fd + 1))).setProc np
      { state.proc np with ofile := update (state.proc np).ofile fd (some f) })
  | .exitLoop fd =>
    if fd < nofile then
      match (state.proc p).ofile fd with
      | none => .next (state.setPc p (.exitLoop (fd + 1)))
      | some f => .next (state.setPc p (.fileclose f (.exit fd)))
    else .next (state.setProc p { state.proc p with state := .zombie, pc := .user })
  | .exitClear fd => .next ((state.setFd p fd none).setPc p (.exitLoop (fd + 1)))
  | .user | .pipeFiles .. | .pipeCopy .. | .forkStart | .forkCopy _ => .disabled

/-- `kalloc` in `pipealloc`; it returns a page that nobody has. -/
def kallocStep (page : Option Nat) : Outcome State :=
  match (state.proc p).pc, page with
  | .pipeFiles rf wf, none => .next (state.setPc p (.fileclose rf (.fileclose wf)))
  | .pipeFiles rf wf, some pi =>
    if state.allocs pi = state.frees pi then
      .next ({ state with
        allocs := update state.allocs pi (state.allocs pi + 1) }.setPc p (.pipePage rf wf pi))
    else .disabled
  | _, _ => .disabled

/-- The two `copyout`s of `sys_pipe`. -/
def copyoutStep (ok : Bool) : Outcome State :=
  match (state.proc p).pc with
  | .pipeCopy rf wf fd0 fd1 =>
    if ok then .next (state.setPc p .user)
    else
      .next (((state.setFd p fd0 none).setFd p fd1 none).setPc p (.fileclose rf (.fileclose wf)))
  | _ => .disabled

/-- `allocproc` in `fork`; it takes a slot that is not in use. -/
def allocprocStep (np : Option Nat) : Outcome State :=
  match (state.proc p).pc, np with
  | .forkStart, none => .next (state.setPc p .user)
  | .forkStart, some np =>
    if np < nproc ∧ (state.proc np).state = .unused then
      .next ((state.setPc p (.forkCopy np)).setProc np
        { state.proc np with state := .used, pc := .user })
    else .disabled
  | _, _ => .disabled

/-- `uvmcopy` in `fork`, with the `freeproc` when it fails. -/
def uvmcopyStep (ok : Bool) : Outcome State :=
  match (state.proc p).pc with
  | .forkCopy np =>
    if ok then .next (state.setPc p (.forkDup np 0))
    else
      .next ((state.setPc p .user).setProc np { state.proc np with state := .unused })
  | _ => .disabled

end Steps

/-- One step of a process that is alive. -/
def step (state : State) : Nat × Action → Outcome State
  | (p, action) =>
    if p < nproc ∧ (state.proc p).state = .alive then
      match action with
      | .call call => if (state.proc p).pc = .user then enter state p call else .disabled
      | .proceed => proceed state p
      | .kalloc page => kallocStep state p page
      | .copyout ok => copyoutStep state p ok
      | .allocproc np => allocprocStep state p np
      | .uvmcopy ok => uvmcopyStep state p ok
    else .disabled

/-- No file is open, and only the first process is alive. -/
def boot : State where
  file := fun _ =>
    { type := .none, ref := 0, readable := false, writable := false, pipe := 0, ip := 0,
      number := 0 }
  pipe := fun _ => { readopen := false, writeopen := false }
  proc := fun p =>
    { state := if p = 0 then .alive else .unused, ofile := fun _ => none, pc := .user }
  allocs := fun _ => 0
  frees := fun _ => 0
  opened := 0
  closes := fun _ => 0

end Xv6.Files
