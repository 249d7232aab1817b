import Xv6.Proc.Kernel

/-! # Making and ending processes

`allocproc`, `freeproc`, `userinit`, `growproc`, `fork`, `exit` and `wait` of
`proc.c`. -/

namespace Xv6.Kernel

open StateProg

/-- `if(pointer) …`. -/
def ifSome (pointer : Option Nat) (program : Nat → KernelProg Unit) : KernelProg Unit :=
  match pointer with
  | none => return
  | some pointer => program pointer

/-- `safestrcpy` to `p->name`, which has 16 bytes. -/
def safestrcpy (text : List UInt8) : List UInt8 := text.take 15

variable [KernelImage]

def freeproc (p : Nat) : KernelProg Unit := do
  let proc := (← get).proc p
  ifSome proc.trapframe fun trapframe => onMemory (Vm.kfree trapframe)
  modifyProc p fun proc => { proc with trapframe := none }
  ifSome proc.pagetable fun pagetable => onMemory (Vm.procFreepagetable pagetable proc.sz)
  modifyProc p fun proc =>
    { proc with
      pagetable := none
      sz := 0
      pid := 0
      parent := none
      name := []
      xstate := 0
      state := .unused }

def allocproc : KernelProg (Option Nat) := do
  let kernel ← get
  match (List.range nproc).find? fun p => (kernel.proc p).state == .unused with
  | none => return none
  | some p =>
    modifyProc p fun proc => { proc with pid := kernel.nextpid, state := .used }
    modify fun kernel => { kernel with nextpid := kernel.nextpid + 1 }
    let trapframe ← onMemory Vm.kalloc
    modifyProc p fun proc => { proc with trapframe := trapframe }
    match trapframe with
    | none =>
      freeproc p
      return none
    | some trapframe =>
      let pagetable ← onMemory (Vm.procPagetable trapframe)
      modifyProc p fun proc => { proc with pagetable := pagetable }
      match pagetable with
      | none =>
        freeproc p
        return none
      | some _ => return some p

/-- A null pointer is used where the source does not test for it. -/
def nullPointer : String := "null pointer"

/-- `uvmfirst`, with the code of the first process. -/
def uvmfirst (pagetable : Nat) (code : List UInt8) : MemProg Unit := do
  if code.length ≥ pgSize then
    .panic "uvmfirst: more than a page"
  else
    match ← Vm.kalloc with
    | none => .panic nullPointer
    | some mem =>
      Vm.fillPage mem 0
      if ← Vm.mappages pagetable 0 pgSize mem (pteW ||| pteR ||| pteX ||| pteU) then
        Vm.writePage mem 0 code
      else
        -- the source goes on and loses the page; at boot there is memory
        .panic "uvmfirst: mappages"

/-- `userinit`: the first process. -/
def userinit (initcode : List UInt8) : KernelProg Unit := do
  match ← allocproc with
  | none => .panic nullPointer
  | some p =>
    modify fun kernel => { kernel with initproc := some p }
    onMemory (uvmfirst (← pagetableOf p) initcode)
    modifyProc p fun proc =>
      { proc with
        sz := pgSize
        name := safestrcpy "initcode".toUTF8.toList
        state := .runnable }

def growproc (p : Nat) (n : Int) : KernelProg Int := do
  let proc := (← get).proc p
  let pagetable ← pagetableOf p
  let newsz := (((proc.sz : Int) + n) % 2 ^ 64).toNat
  if n > 0 then
    let sz ← onMemory (Vm.uvmalloc pagetable proc.sz newsz pteW)
    if sz = 0 then
      return -1
    else
      modifyProc p fun proc => { proc with sz := sz }
      return 0
  else if n < 0 then
    let sz ← onMemory (Vm.uvmdealloc pagetable proc.sz newsz)
    modifyProc p fun proc => { proc with sz := sz }
    return 0
  else
    return 0

/-- `*(np->trapframe) = *(p->trapframe)`, with 0 in `a0`. -/
def copyTrapframe (source target : Nat) : MemProg Unit := do
  Vm.writePage target 0 (← Vm.readPage source 0 288)
  Vm.writePage target 112 (Bytes.encode 8 0)

/-- The loop of `fork` over the open files of the parent. -/
def dupFiles (p np : Nat) : (count fd : Nat) → KernelProg Unit
  | 0, _ => return
  | count + 1, fd => do
      ifSome (((← get).proc p).ofile fd) fun f => do
        let f ← filedup f
        modifyProc np fun proc => { proc with ofile := Function.update proc.ofile fd (some f) }
      dupFiles p np count (fd + 1)

def fork (p : Nat) : KernelProg Int := do
  match ← allocproc with
  | none => return -1
  | some np =>
    let old ← pagetableOf p
    let new ← pagetableOf np
    let parent := (← get).proc p
    if ← onMemory (Vm.uvmcopy old new parent.sz) then
      modifyProc np fun proc => { proc with sz := parent.sz, parent := some p }
      let source ← trapframeOf p
      let target ← trapframeOf np
      onMemory (copyTrapframe source target)
      dupFiles p np nofile 0
      let pid := ((← get).proc np).pid
      modifyProc np fun proc =>
        { proc with name := safestrcpy parent.name, state := .runnable }
      return pid
    else
      freeproc np
      return -1

/-- The loop of `exit` over the open files. -/
def closeFiles (p : Nat) : (count fd : Nat) → KernelProg Unit
  | 0, _ => return
  | count + 1, fd => do
      ifSome (((← get).proc p).ofile fd) fun f => do
        fileclose f
        clearFd p fd
      closeFiles p count (fd + 1)

omit [KernelImage] in
/-- `reparent`: pass abandoned children to init. -/
def reparent (p : Nat) : KernelProg Unit :=
  modify fun kernel =>
    { kernel with
      proc := fun q =>
        if (kernel.proc q).parent = some p then
          { kernel.proc q with parent := kernel.initproc }
        else kernel.proc q }

def exit (p : Nat) (status : Int) : KernelProg Unit := do
  if (← get).initproc = some p then
    .panic "init exiting"
  else
    closeFiles p nofile 0
    reparent p
    modifyProc p fun proc => { proc with xstate := status, state := .zombie }

/-- `wait`, up to the point where it returns or sleeps. -/
def wait (p addr : Nat) : KernelProg Int := do
  let kernel ← get
  match (List.range nproc).find? fun q =>
      (kernel.proc q).parent == some p && (kernel.proc q).state == .zombie with
  | none => return -1
  | some q =>
    let child := kernel.proc q
    let copied ←
      if addr = 0 then pure true
      else
        onMemory (Vm.copyout (← pagetableOf p) addr (Bytes.encode 4 (child.xstate % 2 ^ 32).toNat))
    if copied then
      freeproc q
      return child.pid
    else
      return -1

end Xv6.Kernel
