import Xv6.Foundation.Heap
import Xv6.Foundation.StateProg
import Xv6.Vm.Layout

/-! # Physical memory and its allocator

`kalloc.c`. A page is named by its physical address; `kmem.freelist` is the list
of the pages that are chained through it. -/

namespace Xv6

/-- What the linker decides: where the kernel ends and where the trampoline
page is. -/
class KernelImage where
  kernelEnd : Nat
  trampoline : Nat
  trampoline_aligned : trampoline % pgSize = 0
  trampoline_lt : trampoline < 2 ^ 56

/-- A machine with 24 pages for processes. -/
abbrev Kernel.smallImage : KernelImage where
  kernelEnd := physTop - 24 * pgSize
  trampoline := kernBase
  trampoline_aligned := by decide
  trampoline_lt := by decide

/-- `kmem.freelist` and the contents of every physical page. -/
abbrev Memory := Heap Nat Page

abbrev MemProg (Value : Type) := StateProg Memory Value

namespace Vm

open StateProg

/-- `memset` of a whole page. -/
def fillPage (pa : Nat) (byte : UInt8) : MemProg Unit :=
  modify fun memory => { memory with cell := Function.update memory.cell pa fun _ => byte }

/-- `memmove` of bytes into a page. -/
def writePage (pa offset : Nat) (source : List UInt8) : MemProg Unit :=
  modify fun memory =>
    { memory with cell := Function.update memory.cell pa ((memory.cell pa).write offset source) }

def readPage (pa offset count : Nat) : MemProg (List UInt8) := do
  return ((← get).cell pa).read offset count

/-- `pagetable[index]`. -/
def loadPte (pagetable index : Nat) : MemProg Nat := do
  return ((← get).cell pagetable).word 8 index

/-- `pagetable[index] = pte`. -/
def storePte (pagetable index pte : Nat) : MemProg Unit :=
  modify fun memory =>
    { memory with
      cell := Function.update memory.cell pagetable ((memory.cell pagetable).setWord 8 index pte) }

/-- `kalloc`: a page filled with junk, or nothing. It may find the free list
empty at any call, whatever this process has seen before. -/
def kalloc : MemProg (Option Nat) := do
  if ← Prog.anyBool then
    return none
  let memory ← get
  match memory.free with
  | [] => return none
  | pa :: rest =>
    put { memory with free := rest }
    fillPage pa 5
    return some pa

variable [KernelImage]

/-- `kfree`: put a page on the free list. -/
def kfree (pa : Nat) : MemProg Unit := do
  if pa % pgSize ≠ 0 ∨ pa < KernelImage.kernelEnd ∨ pa ≥ physTop then
    .panic "kfree"
  else
    fillPage pa 1
    modify fun memory => { memory with free := pa :: memory.free }

/-- The loop of `freerange`, for `count` pages from `pa` on. -/
def freerangeFrom : (count pa : Nat) → MemProg Unit
  | 0, _ => return
  | count + 1, pa => do
      kfree pa
      freerangeFrom count (pa + pgSize)

def freerange (first last : Nat) : MemProg Unit :=
  freerangeFrom ((last - pgRoundUp first) / pgSize) (pgRoundUp first)

end Vm

end Xv6
