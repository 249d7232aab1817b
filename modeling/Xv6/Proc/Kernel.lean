import Xv6.Param
import Xv6.Proc.Pagetable

/-! # Processes, open files and pipes

The tables of `proc.c`, `file.c` and `pipe.c`, with the functions on files and
pipes. What the file system does on behalf of these functions (`iput`, `idup`)
allocates no memory and is left out. -/

namespace Xv6

open Function (update update_self update_of_ne update_eq_self)

/-- `enum procstate`; a process that sleeps or runs is `runnable` here. -/
inductive ProcState where
  | unused
  | used
  | runnable
  | zombie
  deriving DecidableEq

/-- `struct proc`. -/
structure Proc where
  state : ProcState
  pid : Nat
  parent : Option Nat
  xstate : Int
  sz : Nat
  pagetable : Option Nat
  trapframe : Option Nat
  ofile : Nat → Option Nat
  /-- The bytes of `p->name` before its NUL. -/
  name : List UInt8

inductive FileType where
  | none
  | pipe
  | inode
  | device
  deriving DecidableEq

/-- `struct file`. -/
structure File where
  type : FileType
  ref : Nat
  readable : Bool
  writable : Bool
  pipe : Nat

/-- `struct pipe`, which fills a page of its own. -/
structure Pipe where
  readopen : Bool
  writeopen : Bool

/-- Everything the calls below work on. A pipe is named by its page. -/
structure Kernel where
  memory : Memory
  proc : Nat → Proc
  file : Nat → File
  pipe : Nat → Pipe
  initproc : Option Nat
  nextpid : Nat

abbrev KernelProg (Value : Type) := StateProg Kernel Value

namespace Kernel

open StateProg

@[simps! -fullyApplied memory proc file]
def setMemory (kernel : Kernel) (memory : Memory) : Kernel := { kernel with memory := memory }

@[simps! -fullyApplied memory file]
def setProc (kernel : Kernel) (p : Nat) (proc : Proc) : Kernel :=
  { kernel with proc := update kernel.proc p proc }

@[simps! -fullyApplied file proc pipe]
def setFiles (kernel : Kernel) (file : Nat → File) : Kernel := { kernel with file := file }

@[simps! -fullyApplied pipe]
def setPipes (kernel : Kernel) (pipe : Nat → Pipe) : Kernel := { kernel with pipe := pipe }

@[simp] theorem setProc_proc_self (kernel : Kernel) (p : Nat) (proc : Proc) :
    (kernel.setProc p proc).proc p = proc :=
  update_self _ _ _

theorem setProc_proc_of_ne (different : q ≠ p) (kernel : Kernel) (proc : Proc) :
    (kernel.setProc p proc).proc q = kernel.proc q :=
  update_of_ne different _ _

theorem setProc_eq_self (kernel : Kernel) (p : Nat) :
    kernel.setProc p (kernel.proc p) = kernel := by
  rw [setProc, update_eq_self]

/-- Run a function of `kalloc.c` or `vm.c`. -/
def onMemory {Value : Type} (program : MemProg Value) : KernelProg Value :=
  zoom Kernel.memory (fun memory kernel => kernel.setMemory memory) program

def modifyProc (p : Nat) (change : Proc → Proc) : KernelProg Unit :=
  modify fun kernel => kernel.setProc p (change (kernel.proc p))

def modifyFile (f : Nat) (change : File → File) : KernelProg Unit :=
  modify fun kernel => kernel.setFiles (update kernel.file f (change (kernel.file f)))

def modifyPipe (pi : Nat) (change : Pipe → Pipe) : KernelProg Unit :=
  modify fun kernel => kernel.setPipes (update kernel.pipe pi (change (kernel.pipe pi)))

def filealloc : KernelProg (Option Nat) := do
  let kernel ← get
  match (List.range nfile).find? fun f => (kernel.file f).ref == 0 with
  | none => return none
  | some f =>
    modifyFile f fun file => { file with ref := 1 }
    return some f

def filedup (f : Nat) : KernelProg Nat := do
  if ((← get).file f).ref < 1 then
    .panic "filedup"
  else
    modifyFile f fun file => { file with ref := file.ref + 1 }
    return f

variable [KernelImage]

def pipeclose (pi : Nat) (writable : Bool) : KernelProg Unit := do
  if writable then
    modifyPipe pi fun pipe => { pipe with writeopen := false }
  else
    modifyPipe pi fun pipe => { pipe with readopen := false }
  let pipe := (← get).pipe pi
  if !pipe.readopen && !pipe.writeopen then
    onMemory (Vm.kfree pi)

def fileclose (f : Nat) : KernelProg Unit := do
  let file := (← get).file f
  if file.ref < 1 then
    .panic "fileclose"
  else if file.ref - 1 > 0 then
    modifyFile f fun file => { file with ref := file.ref - 1 }
  else
    modifyFile f fun file => { file with ref := 0, type := .none }
    match file.type with
    | .pipe => pipeclose file.pipe file.writable
    | _ => return

/-- `pipealloc`: the files of the read end and of the write end. -/
def pipealloc : KernelProg (Option (Nat × Nat)) := do
  match ← filealloc with
  | none => return none
  | some f0 =>
    match ← filealloc with
    | none =>
      fileclose f0
      return none
    | some f1 =>
      match ← onMemory Vm.kalloc with
      | none =>
        fileclose f0
        fileclose f1
        return none
      | some pi =>
        modifyPipe pi fun _ => { readopen := true, writeopen := true }
        modifyFile f0 fun file =>
          { file with type := .pipe, readable := true, writable := false, pipe := pi }
        modifyFile f1 fun file =>
          { file with type := .pipe, readable := false, writable := true, pipe := pi }
        return some (f0, f1)

omit [KernelImage] in
/-- `fdalloc`: the lowest descriptor of the process that is not in use. -/
def fdalloc (p f : Nat) : KernelProg (Option Nat) := do
  let proc := (← get).proc p
  match (List.range nofile).find? fun fd => (proc.ofile fd).isNone with
  | none => return none
  | some fd =>
    modifyProc p fun proc => { proc with ofile := update proc.ofile fd (some f) }
    return some fd

omit [KernelImage] in
/-- `argfd`: the file of a descriptor. -/
def argfd (p : Nat) (fd : Int) : KernelProg (Option Nat) := do
  if fd < 0 ∨ fd ≥ nofile then
    return none
  else
    return ((← get).proc p).ofile fd.toNat

/-- `p->ofile[fd] = 0`. -/
def clearFd (p fd : Nat) : KernelProg Unit :=
  modifyProc p fun proc => { proc with ofile := update proc.ofile fd none }

def sysClose (p : Nat) (fd : Int) : KernelProg Int := do
  match ← argfd p fd with
  | none => return -1
  | some f =>
    clearFd p fd.toNat
    fileclose f
    return 0

def sysDup (p : Nat) (fd : Int) : KernelProg Int := do
  match ← argfd p fd with
  | none => return -1
  | some f =>
    match ← fdalloc p f with
    | none => return -1
    | some fd =>
      let _ ← filedup f
      return fd

/-- What `sys_open` does with files once it has an inode. -/
def sysOpen (p : Nat) (device : Bool) (readable writable : Bool) : KernelProg Int := do
  match ← filealloc with
  | none => return -1
  | some f =>
    match ← fdalloc p f with
    | none =>
      fileclose f
      return -1
    | some fd =>
      modifyFile f fun file =>
        { file with type := if device then .device else .inode, readable, writable }
      return fd

omit [KernelImage] in
/-- `p->pagetable` of a process that runs. -/
def pagetableOf (p : Nat) : KernelProg Nat := do
  match ((← get).proc p).pagetable with
  | none => .panic Vm.noPagetable
  | some pagetable => return pagetable

omit [KernelImage] in
/-- `p->trapframe` of a process that runs. -/
def trapframeOf (p : Nat) : KernelProg Nat := do
  match ((← get).proc p).trapframe with
  | none => .panic Vm.noPagetable
  | some trapframe => return trapframe

/-- `sys_pipe`; `fdarray` is the user's array of two integers. -/
def sysPipe (p fdarray : Nat) : KernelProg Int := do
  match ← pipealloc with
  | none => return -1
  | some (rf, wf) =>
    match ← fdalloc p rf with
    | none =>
      fileclose rf
      fileclose wf
      return -1
    | some fd0 =>
      match ← fdalloc p wf with
      | none =>
        clearFd p fd0
        fileclose rf
        fileclose wf
        return -1
      | some fd1 =>
        let pagetable ← pagetableOf p
        let first ← onMemory (Vm.copyout pagetable fdarray (Bytes.encode 4 fd0))
        let both ←
          if first then
            onMemory (Vm.copyout pagetable ((fdarray + 4) % 2 ^ 64) (Bytes.encode 4 fd1))
          else pure false
        if both then
          return 0
        else
          clearFd p fd0
          clearFd p fd1
          fileclose rf
          fileclose wf
          return -1

end Kernel

end Xv6
