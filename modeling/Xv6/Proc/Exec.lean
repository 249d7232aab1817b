import Xv6.Proc.Proc

/-! # `exec`

`exec.c` and `sys_exec`. The program file is given by its bytes; what `readi`
returns for it is `readi` below. -/

namespace Xv6.Kernel

open StateProg

/-- `readi` of a file in the kernel, with its 32-bit offsets. -/
def readi (file : List UInt8) (off n : Nat) : List UInt8 :=
  if off > file.length ∨ (off + n) % 2 ^ 32 < off then []
  else (file.drop off).take n

/-- A number in a header. -/
def field (header : List UInt8) (offset width : Nat) : Nat :=
  Bytes.decode ((header.drop offset).take width)

def elfMagic : Nat := 0x464C457F

/-- `sizeof(struct elfhdr)`. -/
def elfhdrSize : Nat := 64

/-- `sizeof(struct proghdr)`. -/
def proghdrSize : Nat := 56

def elfProgLoad : Nat := 1

def flags2perm (flags : Nat) : Nat :=
  (if hasFlag flags 1 then pteX else 0) ||| (if hasFlag flags 2 then pteW else 0)

/-- Subtraction of 64-bit numbers. -/
def sub64 (left right : Nat) : Nat := (left + 2 ^ 64 - right % 2 ^ 64) % 2 ^ 64

/-- The loop of `loadseg`, from `i` on. -/
def loadsegFrom (pagetable va : Nat) (file : List UInt8) (offset sz : Nat) :
    (count i : Nat) → MemProg Bool
  | 0, _ => return true
  | count + 1, i => do
      match ← Vm.walkaddr pagetable (va + i) with
      | none => .panic "loadseg: address should exist"
      | some pa =>
        let n := if sz - i < pgSize then sz - i else pgSize
        let bytes := readi file ((offset + i) % 2 ^ 32) n
        Vm.writePage pa 0 bytes
        if bytes.length ≠ n then
          return false
        else
          loadsegFrom pagetable va file offset sz count (i + pgSize)

/-- `loadseg`; `offset` and `sz` are 32-bit numbers. -/
def loadseg (pagetable va : Nat) (file : List UInt8) (offset sz : Nat) : MemProg Bool :=
  loadsegFrom pagetable va file offset sz ((sz + pgSize - 1) / pgSize) 0

/-- The loop of `exec` that looks for the last element of the path. -/
def lastElem : (s last : List UInt8) → List UInt8
  | [], last => last
  | c :: rest, last => lastElem rest (if c = '/'.toUInt8 then rest else last)

/-- The message of the model where `exec` would write past the end of `ustack`. -/
def ustackOverflow : String := "ustack overflow"

/-- What `exec` has built when it commits to the new program. -/
structure Image where
  pagetable : Nat
  sz : Nat
  sp : Nat
  argc : Nat
  entry : Nat

variable [KernelImage]

/-- The loop of `exec` over the program headers: whether it went through, and
the size of the memory at that point. -/
def loadSegments (pagetable : Nat) (file : List UInt8) :
    (count off sz : Nat) → MemProg (Bool × Nat)
  | 0, _, sz => return (true, sz)
  | count + 1, off, sz => do
      let ph := readi file off proghdrSize
      let next := (off + proghdrSize) % 2 ^ 32
      let vaddr := field ph 16 8
      let filesz := field ph 32 8
      let memsz := field ph 40 8
      if ph.length ≠ proghdrSize then
        return (false, sz)
      else if field ph 0 4 ≠ elfProgLoad then
        loadSegments pagetable file count next sz
      else if memsz < filesz then
        return (false, sz)
      else if (vaddr + memsz) % 2 ^ 64 < vaddr then
        return (false, sz)
      else if vaddr % pgSize ≠ 0 then
        return (false, sz)
      else
        let sz1 ← Vm.uvmalloc pagetable sz ((vaddr + memsz) % 2 ^ 64) (flags2perm (field ph 4 4))
        if sz1 = 0 then
          return (false, sz)
        else if ← loadseg pagetable vaddr file (field ph 8 8 % 2 ^ 32) (filesz % 2 ^ 32) then
          loadSegments pagetable file count next sz1
        else
          return (false, sz1)

omit [KernelImage] in
/-- The loop of `exec` over the arguments: the stack pointer and the pointers to
the strings, if they fit. -/
def pushArgs (pagetable stackbase : Nat) :
    (argv : List Nat) → (argc sp : Nat) → (ustack : List Nat) → MemProg (Option (Nat × List Nat))
  | [], _, sp, ustack => return some (sp, ustack)
  | arg :: rest, argc, sp, ustack => do
      if argc ≥ maxArg then
        return none
      else
        let text := (← Vm.readPage arg 0 pgSize).takeWhile (· != 0)
        let sp := sub64 sp (text.length + 1)
        let sp := sp - sp % 16
        if sp < stackbase then
          return none
        else if ← Vm.copyout pagetable sp (text ++ [0]) then
          pushArgs pagetable stackbase rest (argc + 1) sp (ustack ++ [sp])
        else
          return none

omit [KernelImage] in
/-- The rest of `exec` on the stack: the array of pointers. -/
def pushStack (pagetable sz : Nat) (argv : List Nat) : MemProg (Option Nat) := do
  let stackbase := sub64 sz pgSize
  match ← pushArgs pagetable stackbase argv 0 sz [] with
  | none => return none
  | some (sp, ustack) =>
    let words := ustack ++ [0]
    let sp := sub64 sp (words.length * 8)
    let sp := sp - sp % 16
    if words.length > maxArg then
      .panic ustackOverflow
    else if sp < stackbase then
      return none
    else if ← Vm.copyout pagetable sp (words.flatMap (Bytes.encode 8)) then
      return some sp
    else
      return none

/-- `exec` on the new page table: a complete image, or nothing and the size to
free. -/
def loadImage (pagetable : Nat) (elf file : List UInt8) (argv : List Nat) :
    MemProg (Except Nat Image) := do
  let (loaded, sz) ← loadSegments pagetable file (field elf 56 2) (field elf 32 8 % 2 ^ 32) 0
  if !loaded then
    return .error sz
  else
    let sz := pgRoundUp sz
    let sz1 ← Vm.uvmalloc pagetable sz ((sz + 2 * pgSize) % 2 ^ 64) pteW
    if sz1 = 0 then
      return .error sz
    else
      Vm.uvmclear pagetable (sub64 sz1 (2 * pgSize))
      match ← pushStack pagetable sz1 argv with
      | none => return .error sz1
      | some sp =>
        return .ok { pagetable, sz := sz1, sp, argc := argv.length, entry := field elf 24 8 }

/-- `exec`; `file` is the file that `path` names, if there is one. -/
def exec (p : Nat) (path : List UInt8) (file : Option (List UInt8)) (argv : List Nat) :
    KernelProg Int := do
  match file with
  | none => return -1
  | some file =>
    let elf := readi file 0 elfhdrSize
    if elf.length ≠ elfhdrSize ∨ field elf 0 4 ≠ elfMagic then
      return -1
    else
      let proc := (← get).proc p
      let trapframe ← trapframeOf p
      match ← onMemory (Vm.procPagetable trapframe) with
      | none => return -1
      | some pagetable =>
        match ← onMemory (loadImage pagetable elf file argv) with
        | .error sz =>
          onMemory (Vm.procFreepagetable pagetable sz)
          return -1
        | .ok image =>
          let oldpagetable ← pagetableOf p
          modifyProc p fun proc =>
            { proc with
              name := safestrcpy (lastElem path path)
              pagetable := some image.pagetable
              sz := image.sz }
          onMemory do
            Vm.writePage trapframe 120 (Bytes.encode 8 image.sp)
            Vm.writePage trapframe 24 (Bytes.encode 8 image.entry)
            Vm.writePage trapframe 48 (Bytes.encode 8 image.sp)
            Vm.procFreepagetable oldpagetable proc.sz
          return image.argc

omit [KernelImage] in
/-- The loop of `sys_exec` over the user's `argv`: whether it ended well, and
the pages that hold the strings. -/
def fetchArgs (pagetable sz uargv : Nat) : (count i : Nat) → (args : List Nat) →
    MemProg (Bool × List Nat)
  | 0, _, args => return (false, args)
  | count + 1, i, args => do
      let addr := (uargv + 8 * i) % 2 ^ 64
      -- `fetchaddr`
      if addr ≥ sz ∨ (addr + 8) % 2 ^ 64 > sz then
        return (false, args)
      else
        let (fetched, bytes) ← Vm.copyin pagetable addr 8
        if !fetched then
          return (false, args)
        else if Bytes.decode bytes = 0 then
          return (true, args)
        else
          match ← Vm.kalloc with
          | none => return (false, args)
          | some arg =>
            -- `fetchstr`
            let (copied, text) ← Vm.copyinstr pagetable (Bytes.decode bytes) pgSize
            Vm.writePage arg 0 text
            if copied then
              fetchArgs pagetable sz uargv count (i + 1) (args ++ [arg])
            else
              return (false, args ++ [arg])

/-- `kfree` of every argument. -/
def freeArgs : List Nat → MemProg Unit
  | [] => return
  | arg :: rest => do
      Vm.kfree arg
      freeArgs rest

def sysExec (p uargv : Nat) (path : List UInt8) (file : Option (List UInt8)) :
    KernelProg Int := do
  -- `argstr` of the path may fail
  if ← Prog.anyBool then
    return -1
  else
    let proc := (← get).proc p
    let pagetable ← pagetableOf p
    let (fetched, args) ← onMemory (fetchArgs pagetable proc.sz uargv maxArg 0 [])
    let ret ← if fetched then exec p path file args else pure (-1)
    onMemory (freeArgs args)
    return ret

end Xv6.Kernel
