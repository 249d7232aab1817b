import Xv6.Vm.Kalloc

/-! # Page tables and user memory

`vm.c`, function by function. A pointer to an entry is the page it lies in and
its index there. -/

namespace Xv6.Vm

open StateProg

/-- The loop of `walk`, from `level` down. -/
def walkFrom (alloc : Bool) (va : Nat) : (level pagetable : Nat) → MemProg (Option (Nat × Nat))
  | 0, pagetable => return some (pagetable, px 0 va)
  | level + 1, pagetable => do
      let pte ← loadPte pagetable (px (level + 1) va)
      if hasFlag pte pteV then
        walkFrom alloc va level (pte2pa pte)
      else if alloc then
        match ← kalloc with
        | none => return none
        | some child =>
          fillPage child 0
          storePte pagetable (px (level + 1) va) (pa2pte child ||| pteV)
          walkFrom alloc va level child
      else
        return none

/-- `walk`: the entry for `va`. -/
def walk (pagetable va : Nat) (alloc : Bool) : MemProg (Option (Nat × Nat)) :=
  if va ≥ maxVa then .panic "walk" else walkFrom alloc va 2 pagetable

/-- `walkaddr`: the physical page of a user page. Its 0 for "not mapped" is `none`, so that
a page at address 0 counts as not mapped, too. -/
def walkaddr (pagetable va : Nat) : MemProg (Option Nat) := do
  if va ≥ maxVa then
    return none
  match ← walk pagetable va false with
  | none => return none
  | some (table, index) =>
    let pte ← loadPte table index
    if hasFlag pte pteV && hasFlag pte pteU then
      return if pte2pa pte = 0 then none else some (pte2pa pte)
    else
      return none

/-- The loop of `mappages`: `count` pages from `va` on. -/
def mappagesFrom (pagetable perm : Nat) : (count va pa : Nat) → MemProg Bool
  | 0, _, _ => return true
  | count + 1, va, pa => do
      match ← walk pagetable va true with
      | none => return false
      | some (table, index) =>
        let pte ← loadPte table index
        if hasFlag pte pteV then
          .panic "mappages: remap"
        else
          storePte table index (pa2pte pa ||| perm ||| pteV)
          mappagesFrom pagetable perm count (va + pgSize) ((pa + pgSize) % 2 ^ 64)

/-- `mappages`: whether all entries could be made. -/
def mappages (pagetable va size pa perm : Nat) : MemProg Bool :=
  if size = 0 then .panic "mappages: size"
  else
    let first := pgRoundDown va
    let last := pgRoundDown (va + size - 1)
    mappagesFrom pagetable perm ((last - first) / pgSize + 1) first pa

variable [KernelImage]

/-- `uvmunmap`: the loop over `npages` pages from `va` on. -/
def uvmunmapFrom (pagetable : Nat) (doFree : Bool) : (npages va : Nat) → MemProg Unit
  | 0, _ => return
  | npages + 1, va => do
      match ← walk pagetable va false with
      | none => .panic "uvmunmap: walk"
      | some (table, index) =>
        let pte ← loadPte table index
        if !hasFlag pte pteV then
          .panic "uvmunmap: not mapped"
        else if pteFlags pte = pteV then
          .panic "uvmunmap: not a leaf"
        else
          if doFree then
            kfree (pte2pa pte)
          storePte table index 0
          uvmunmapFrom pagetable doFree npages (va + pgSize)

def uvmunmap (pagetable va npages : Nat) (doFree : Bool) : MemProg Unit :=
  if va % pgSize ≠ 0 then .panic "uvmunmap: not aligned"
  else uvmunmapFrom pagetable doFree npages va

omit [KernelImage] in
/-- `uvmcreate`: an empty user page table. -/
def uvmcreate : MemProg (Option Nat) := do
  match ← kalloc with
  | none => return none
  | some pagetable =>
    fillPage pagetable 0
    return some pagetable

/-- `uvmdealloc`: the new process size. -/
def uvmdealloc (pagetable oldsz newsz : Nat) : MemProg Nat := do
  if newsz ≥ oldsz then
    return oldsz
  if pgRoundUp newsz < pgRoundUp oldsz then
    let npages := (pgRoundUp oldsz - pgRoundUp newsz) / pgSize
    uvmunmap pagetable (pgRoundUp newsz) npages true
  return newsz

/-- The loop of `uvmalloc`: `count` pages from `va` on; `oldsz` is rounded up. -/
def uvmallocFrom (pagetable oldsz xperm : Nat) : (count va : Nat) → MemProg Bool
  | 0, _ => return true
  | count + 1, va => do
      match ← kalloc with
      | none =>
        let _ ← uvmdealloc pagetable va oldsz
        return false
      | some mem =>
        fillPage mem 0
        if ← mappages pagetable va pgSize mem (pteR ||| pteU ||| xperm) then
          uvmallocFrom pagetable oldsz xperm count (va + pgSize)
        else
          kfree mem
          let _ ← uvmdealloc pagetable va oldsz
          return false

/-- `uvmalloc`: the new size, or 0 on error. -/
def uvmalloc (pagetable oldsz newsz xperm : Nat) : MemProg Nat := do
  if newsz < oldsz then
    return oldsz
  let oldsz := pgRoundUp oldsz
  let count := (newsz - oldsz + pgSize - 1) / pgSize
  if ← uvmallocFrom pagetable oldsz xperm count oldsz then
    return newsz
  else
    return 0

/-- One entry of the loop of `freewalk`. -/
def freewalkEntry (free : Nat → MemProg Unit) (pagetable index : Nat) : MemProg Unit := do
  let pte ← loadPte pagetable index
  if hasFlag pte pteV && !hasFlag pte (pteR ||| pteW ||| pteX) then
    free (pte2pa pte)
    storePte pagetable index 0
  else if hasFlag pte pteV then
    .panic "freewalk: leaf"

/-- The message of the model where `freewalk` would go deeper than `depth`. -/
def tooDeep : String := "freewalk: too deep"

/-- The message of the model where a call would work on a process that has no
page table or no trapframe. -/
def noPagetable : String := "no page table"

/-- `freewalk`, recursing at most `depth` levels down. -/
def freewalk : (depth pagetable : Nat) → MemProg Unit
  | 0, _ => .panic tooDeep
  | depth + 1, pagetable => do
      Prog.forEach (freewalkEntry (freewalk depth) pagetable) 512 0
      kfree pagetable

/-- `uvmfree`: user pages first, then page-table pages. -/
def uvmfree (pagetable sz : Nat) : MemProg Unit := do
  if sz > 0 then
    uvmunmap pagetable 0 (pgRoundUp sz / pgSize) true
  freewalk 3 pagetable

/-- The loop of `uvmcopy`: `count` pages from `va` on. -/
def uvmcopyFrom (old new : Nat) : (count va : Nat) → MemProg Bool
  | 0, _ => return true
  | count + 1, va => do
      match ← walk old va false with
      | none => .panic "uvmcopy: pte should exist"
      | some (table, index) =>
        let pte ← loadPte table index
        if !hasFlag pte pteV then
          .panic "uvmcopy: page not present"
        else
          match ← kalloc with
          | none =>
            uvmunmap new 0 (va / pgSize) true
            return false
          | some mem =>
            writePage mem 0 (← readPage (pte2pa pte) 0 pgSize)
            if ← mappages new va pgSize mem (pteFlags pte) then
              uvmcopyFrom old new count (va + pgSize)
            else
              kfree mem
              uvmunmap new 0 (va / pgSize) true
              return false

/-- `uvmcopy`: whether all of the parent's memory was copied. -/
def uvmcopy (old new sz : Nat) : MemProg Bool :=
  uvmcopyFrom old new ((sz + pgSize - 1) / pgSize) 0

omit [KernelImage] in
/-- `uvmclear`: take `PTE_U` from an entry. -/
def uvmclear (pagetable va : Nat) : MemProg Unit := do
  match ← walk pagetable va false with
  | none => .panic "uvmclear"
  | some (table, index) =>
    let pte ← loadPte table index
    storePte table index (pte &&& (2 ^ 64 - 1 - pteU))

section Copy

omit [KernelImage]

/-- The loop of `copyout`; each iteration copies at least one byte. -/
def copyoutFrom (pagetable : Nat) : (fuel dstva : Nat) → (src : List UInt8) → MemProg Bool
  | 0, _, _ => return true
  | fuel + 1, dstva, src => do
      if src.isEmpty then
        return true
      let va0 := pgRoundDown dstva
      match ← walkaddr pagetable va0 with
      | none => return false
      | some pa0 =>
        let count := min (pgSize - (dstva - va0)) src.length
        writePage pa0 (dstva - va0) (src.take count)
        copyoutFrom pagetable fuel (va0 + pgSize) (src.drop count)

/-- `copyout`: whether all bytes could be copied to user memory. -/
def copyout (pagetable dstva : Nat) (src : List UInt8) : MemProg Bool :=
  copyoutFrom pagetable src.length dstva src

/-- The loop of `copyin`; `done` are the bytes copied so far. -/
def copyinFrom (pagetable : Nat) :
    (fuel srcva len : Nat) → (done : List UInt8) → MemProg (Bool × List UInt8)
  | 0, _, _, done => return (true, done)
  | fuel + 1, srcva, len, done => do
      if len = 0 then
        return (true, done)
      let va0 := pgRoundDown srcva
      match ← walkaddr pagetable va0 with
      | none => return (false, done)
      | some pa0 =>
        let count := min (pgSize - (srcva - va0)) len
        let bytes ← readPage pa0 (srcva - va0) count
        copyinFrom pagetable fuel (va0 + pgSize) (len - count) (done ++ bytes)

/-- `copyin`: whether all bytes could be copied from user memory, and the bytes
that were. -/
def copyin (pagetable srcva len : Nat) : MemProg (Bool × List UInt8) :=
  copyinFrom pagetable len srcva len []

/-- The loop of `copyinstr`. -/
def copyinstrFrom (pagetable : Nat) :
    (fuel srcva max : Nat) → (done : List UInt8) → MemProg (Bool × List UInt8)
  | 0, _, _, done => return (false, done)
  | fuel + 1, srcva, max, done => do
      if max = 0 then
        return (false, done)
      let va0 := pgRoundDown srcva
      match ← walkaddr pagetable va0 with
      | none => return (false, done)
      | some pa0 =>
        let count := min (pgSize - (srcva - va0)) max
        let bytes ← readPage pa0 (srcva - va0) count
        let text := bytes.takeWhile (· != 0)
        if text.length < bytes.length then
          return (true, done ++ text ++ [0])
        else
          copyinstrFrom pagetable fuel (va0 + pgSize) (max - count) (done ++ bytes)

/-- `copyinstr`: whether a string with its NUL could be copied, and the bytes
that were. -/
def copyinstr (pagetable srcva max : Nat) : MemProg (Bool × List UInt8) :=
  copyinstrFrom pagetable max srcva max []

end Copy

end Xv6.Vm
