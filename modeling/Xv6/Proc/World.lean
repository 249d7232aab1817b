import Xv6.Proc.Copy
import Xv6.Proc.Exec
import Mathlib.Tactic.Abel

/-! # Who owns which page

Every page that `kinit` gave to the allocator is on the free list, or was taken
at boot, or belongs to a process or to an open pipe, or is held by the call that
is running. -/

namespace Xv6.Kernel

open StateProg Vm
open Prog (wp_bind wp_pure)

/-- The slots of the process table. -/
@[irreducible] def procSlots : Finset Nat := Finset.range nproc

theorem mem_procSlots : p ∈ procSlots ↔ p < nproc := by
  rw [procSlots, Finset.mem_range]

/-- The pages of a process: its trapframe and its address space. -/
def procPages (cell : Nat → Page) (proc : Proc) : Multiset Nat :=
  proc.trapframe.elim 0 ({·}) + proc.pagetable.elim 0 (space cell)

def processPages (cell : Nat → Page) (proc : Nat → Proc) (slots : Finset Nat) : Multiset Nat :=
  ∑ p ∈ slots, procPages cell (proc p)

/-- The pages of the pipes that have an open end. -/
def openPipes (file : Nat → File) : Finset Nat :=
  ((Finset.range nfile).filter fun f => (file f).type = .pipe).image fun f => (file f).pipe

/-- Whether one end of a pipe is open. -/
def isOpen (pipe : Pipe) (writable : Bool) : Bool :=
  if writable then pipe.writeopen else pipe.readopen

/-- The file table and the pipes agree on which ends are open, and no two files
are the same end. -/
structure FilesOk (file : Nat → File) (pipe : Nat → Pipe) : Prop where
  closed : ∀ f, (file f).ref = 0 → (file f).type = .none
  bounded : ∀ f, (file f).type = .pipe → f < nfile
  isOpen : ∀ f, (file f).type = .pipe → Kernel.isOpen (pipe (file f).pipe) (file f).writable = true
  unique : ∀ f g, (file f).type = .pipe → (file g).type = .pipe →
    (file f).pipe = (file g).pipe → (file f).writable = (file g).writable → f = g
  ends : ∀ f writable, (file f).type = .pipe → Kernel.isOpen (pipe (file f).pipe) writable = true →
    ∃ g, (file g).type = .pipe ∧ (file g).pipe = (file f).pipe ∧ (file g).writable = writable

/-- The page-table pages of a process are as before. -/
def SameTables (cell after : Nat → Page) (proc : Proc) : Prop :=
  ∀ pagetable, proc.pagetable = some pagetable →
    ∀ page ∈ tables cell 2 pagetable, after page = cell page

variable {page : Nat}

theorem mem_procPages_of_table {cell : Nat → Page} {proc : Proc}
    (found : proc.pagetable = some pagetable) (member : page ∈ tables cell 2 pagetable) :
    page ∈ procPages cell proc := by
  rw [procPages, found, Option.elim_some, space, Multiset.mem_add, Multiset.mem_add]
  exact .inr (.inl member)

variable {after : Nat → Page}

theorem SameTables.of_pages {cell : Nat → Page} {proc : Proc}
    (same : ∀ page ∈ procPages cell proc, after page = cell page) : SameTables cell after proc :=
  fun _ found page member => same page (mem_procPages_of_table found member)

theorem procPages_congr {cell : Nat → Page} {proc : Proc} (same : SameTables cell after proc) :
    procPages after proc = procPages cell proc := by
  cases found : proc.pagetable with
  | none => rw [procPages, procPages, found, Option.elim_none, Option.elim_none]
  | some pagetable =>
    rw [procPages, procPages, found, Option.elim_some, Option.elim_some,
      space_congr (same pagetable found)]

theorem mem_processPages {cell : Nat → Page} {proc : Nat → Proc} (inside : p ∈ slots)
    (member : page ∈ procPages cell (proc p)) : page ∈ processPages cell proc slots := by
  rw [processPages, Multiset.mem_sum]
  exact ⟨p, inside, member⟩

variable [KernelImage]

/-- The pages from the end of the kernel to `PHYSTOP`. -/
def managed : Finset Nat :=
  (Finset.range physTop).filter fun pa =>
    pa % pgSize = 0 ∧ pgRoundUp KernelImage.kernelEnd ≤ pa

/-- What holds of a slot of the process table. -/
structure ProcOk (cell : Nat → Page) (proc : Proc) : Prop where
  unused : proc.state = .unused → proc.trapframe = none ∧ proc.pagetable = none ∧ proc.sz = 0
  live : proc.state = .runnable ∨ proc.state = .zombie → proc.pagetable ≠ none
  space : ∀ pagetable, proc.pagetable = some pagetable →
    ∃ trapframe, proc.trapframe = some trapframe ∧ Space cell pagetable trapframe
  size : proc.sz ≤ trapframeVa
  maps : ∀ pagetable, proc.pagetable = some pagetable → Maps cell pagetable (· < numPages proc.sz)

/-- The pages that are not free and not held by the running call. Slots in
`absent` are left out: the call works on them. -/
def others (boot : Multiset Nat) (kernel : Kernel) (absent : Finset Nat) : Multiset Nat :=
  boot + processPages kernel.memory.cell kernel.proc (procSlots \ absent) +
    (openPipes kernel.file).val

structure World (boot : Multiset Nat) (kernel : Kernel) (absent : Finset Nat)
    (owned : Multiset Nat) : Prop where
  partition : (kernel.memory.free : Multiset Nat) + (owned + others boot kernel absent) =
    managed.val
  procs : ∀ p ∈ procSlots \ absent, ProcOk kernel.memory.cell (kernel.proc p)
  files : FilesOk kernel.file kernel.pipe

variable {cell : Nat → Page} {proc : Proc}

theorem ProcOk.congr (ok : ProcOk cell proc) (same : SameTables cell after proc) :
    ProcOk after proc := by
  refine ⟨ok.unused, ok.live, ?_, ok.size, ?_⟩
  · intro pagetable found
    rcases ok.space pagetable found with ⟨trapframe, held, space⟩
    exact ⟨trapframe, held, space.congr (same pagetable found)⟩
  · exact fun pagetable found => (ok.maps pagetable found).congr (same pagetable found)

variable {p pagetable trapframe : Nat}

namespace World

variable {boot owned owned' : Multiset Nat} {kernel : Kernel} {absent : Finset Nat}

theorem proper (world : World boot kernel absent owned) :
    Proper kernel.memory (owned + others boot kernel absent) where
  nodup := by
    rw [world.partition]
    exact managed.nodup
  good := by
    rw [world.partition]
    intro pa member
    have inside := Finset.mem_filter.mp (Finset.mem_def.mpr member)
    exact ⟨inside.2.1, Finset.mem_range.mp inside.1⟩

variable {allowed : String → Prop}

theorem safe (world : World boot kernel absent owned) (placed : KernelImage.kernelEnd ≤ physTop) :
    Safe allowed kernel.memory (owned + others boot kernel absent) := by
  refine ⟨world.proper, .inr ?_⟩
  rw [world.partition]
  intro pa member
  have above := (Finset.mem_filter.mp (Finset.mem_def.mpr member)).2.2
  unfold pgRoundUp physTop kernBase pgSize at *
  omega

variable {memory : Memory}

theorem exchange (world : World boot kernel absent owned)
    (exchange : Exchange kernel.memory owned memory owned') :
    World boot (kernel.setMemory memory) absent owned' := by
  have kept : ∀ page ∈ others boot kernel absent, memory.cell page = kernel.memory.cell page :=
    fun page member => world.proper.untouched exchange member
  have proc : ∀ p ∈ procSlots \ absent,
      SameTables kernel.memory.cell memory.cell (kernel.proc p) := by
    intro p inside
    apply SameTables.of_pages
    intro page member
    apply kept
    rw [others, Multiset.mem_add, Multiset.mem_add]
    exact .inl (.inr (mem_processPages inside member))
  have same : others boot (kernel.setMemory memory) absent =
      others boot kernel absent := by
    have pages : processPages memory.cell kernel.proc (procSlots \ absent) =
        processPages kernel.memory.cell kernel.proc (procSlots \ absent) :=
      Finset.sum_congr rfl fun p inside => procPages_congr (proc p inside)
    simp only [others, setMemory_memory, setMemory_proc, setMemory_file, pages]
  refine ⟨?_, fun p inside => (world.procs p inside).congr (proc p inside), world.files⟩
  rw [same, ← add_assoc]
  exact (congrArg (· + others boot kernel absent) exchange.conserved).trans
    ((add_assoc _ _ _).trans world.partition)

section

variable (world : World boot kernel absent owned)

include world

theorem of_same {after : Kernel} (memory : after.memory = kernel.memory)
    (proc : ∀ p ∈ procSlots \ absent, (after.proc p).state = (kernel.proc p).state ∧
      (after.proc p).trapframe = (kernel.proc p).trapframe ∧
      (after.proc p).pagetable = (kernel.proc p).pagetable ∧ (after.proc p).sz = (kernel.proc p).sz)
    (pipes : openPipes after.file = openPipes kernel.file) (files : FilesOk after.file after.pipe) :
    World boot after absent owned := by
  refine ⟨?_, ?_, files⟩
  · have pages : processPages kernel.memory.cell after.proc (procSlots \ absent) =
        processPages kernel.memory.cell kernel.proc (procSlots \ absent) := by
      apply Finset.sum_congr rfl
      intro p inside
      rcases proc p inside with ⟨_, trapframe, pagetable, _⟩
      rw [procPages, procPages, trapframe, pagetable]
    rw [others, memory, pages, pipes]
    exact world.partition
  · intro p inside
    rcases proc p inside with ⟨state, trapframe, pagetable, sz⟩
    have ok := world.procs p inside
    rw [memory]
    refine ⟨?_, ?_, ?_, ?_, ?_⟩
    · rw [state, trapframe, pagetable, sz]
      exact ok.unused
    · rw [state, pagetable]
      exact ok.live
    · rw [trapframe, pagetable]
      exact ok.space
    · rw [sz]
      exact ok.size
    · rw [pagetable, sz]
      exact ok.maps

theorem of_absent {proc : Nat → Proc} (same : ∀ p, p ∉ absent → proc p = kernel.proc p) :
    World boot { kernel with proc := proc } absent owned := by
  refine world.of_same rfl (fun p inside => ?_) rfl world.files
  have equal := same p (Finset.mem_sdiff.mp inside).2
  exact ⟨congrArg _ equal, congrArg _ equal, congrArg _ equal, congrArg _ equal⟩

theorem setProc (inside : p ∈ absent) (proc : Proc) :
    World boot (kernel.setProc p proc) absent owned := by
  apply world.of_absent
  intro other outside
  apply Function.update_of_ne
  rintro rfl
  exact outside inside

end

omit [KernelImage] in
theorem processPages_erase {proc : Nat → Proc} (slot : p ∈ procSlots) (outside : p ∉ absent) :
    processPages cell proc (procSlots \ absent) =
      procPages cell (proc p) + processPages cell proc (procSlots \ insert p absent) := by
  rw [Finset.sdiff_insert]
  exact (Finset.add_sum_erase (procSlots \ absent) (fun p => procPages cell (proc p))
    (Finset.mem_sdiff.mpr ⟨slot, outside⟩)).symm

theorem take (world : World boot kernel absent owned) {p : Nat} (slot : p ∈ procSlots)
    (outside : p ∉ absent) :
    World boot kernel (insert p absent) (procPages kernel.memory.cell (kernel.proc p) + owned) := by
  refine ⟨?_, ?_, world.files⟩
  · have partition := world.partition
    rw [others, processPages_erase slot outside] at partition
    rw [others, ← partition]
    abel
  · intro q inside
    apply world.procs
    rw [Finset.mem_sdiff, Finset.mem_insert, not_or] at inside
    exact Finset.mem_sdiff.mpr ⟨inside.1, inside.2.2⟩

theorem give
    (world : World boot kernel (insert p absent)
      (procPages kernel.memory.cell (kernel.proc p) + owned)) (slot : p ∈ procSlots)
    (outside : p ∉ absent) (ok : ProcOk kernel.memory.cell (kernel.proc p)) :
    World boot kernel absent owned := by
  refine ⟨?_, ?_, world.files⟩
  · have partition := world.partition
    rw [others] at partition
    rw [others, processPages_erase slot outside, ← partition]
    abel
  · intro q inside
    rw [Finset.mem_sdiff] at inside
    by_cases same : q = p
    · exact same ▸ ok
    · apply world.procs
      rw [Finset.mem_sdiff, Finset.mem_insert, not_or]
      exact ⟨inside.1, same, inside.2⟩

theorem giveProc
    (world : World boot kernel (insert p absent) (procPages kernel.memory.cell proc + owned))
    (slot : p ∈ procSlots) (outside : p ∉ absent) (ok : ProcOk kernel.memory.cell proc) :
    World boot (kernel.setProc p proc) absent owned := by
  apply World.give _ slot outside
  · rw [setProc_proc_self]
    exact ok
  · rw [setProc_proc_self]
    exact world.setProc (Finset.mem_insert_self p absent) proc

theorem procOk (world : World boot kernel ∅ owned) (slot : p ∈ procSlots) :
    ProcOk kernel.memory.cell (kernel.proc p) :=
  world.procs p (by rwa [Finset.sdiff_empty])

variable {pages : Multiset Nat}

theorem extend (world : World boot kernel ∅ (pages + owned)) (slot : p ∈ procSlots)
    (more : procPages kernel.memory.cell proc =
      procPages kernel.memory.cell (kernel.proc p) + pages) (ok : ProcOk kernel.memory.cell proc) :
    World boot (kernel.setProc p proc) ∅ owned := by
  apply World.giveProc _ slot (Finset.notMem_empty p) ok
  rw [more, add_assoc]
  exact world.take slot (Finset.notMem_empty p)

theorem updateProc (world : World boot kernel ∅ owned) (slot : p ∈ procSlots) (proc : Proc)
    (same : procPages kernel.memory.cell proc = procPages kernel.memory.cell (kernel.proc p))
    (ok : ProcOk kernel.memory.cell proc) : World boot (kernel.setProc p proc) ∅ owned := by
  rw [← zero_add owned] at world
  exact world.extend slot (same.trans (add_zero _).symm) ok

section

variable (world : World boot kernel ∅ owned) (slot : p ∈ procSlots)
  (found : (kernel.proc p).pagetable = some pagetable)

include world slot found

theorem properSpace : Proper kernel.memory (space kernel.memory.cell pagetable) := by
  have proper := (world.take slot (Finset.notMem_empty p)).proper.left.left
  rw [procPages, found, Option.elim_some] at proper
  exact proper.right

omit world slot found in
theorem safeSpace (world : World boot kernel ∅ owned) (placed : KernelImage.kernelEnd ≤ physTop)
    (slot : p ∈ procSlots) (found : (kernel.proc p).pagetable = some pagetable) :
    Safe allowed kernel.memory (space kernel.memory.cell pagetable) := by
  have safe : Safe allowed kernel.memory _ :=
    (world.take slot (Finset.notMem_empty p)).safe placed
  rw [procPages, found, Option.elim_some] at safe
  apply safe.of_le
  rw [add_assoc, add_assoc]
  exact (Multiset.le_add_right _ _).trans (Multiset.le_add_left _ _)

/-- A function of `vm.c` worked on the address space of a process, whose record
then changes, too. -/
theorem changeProc (change : SpaceChange pagetable kernel.memory memory)
    (samePagetable : proc.pagetable = (kernel.proc p).pagetable)
    (sameTrapframe : proc.trapframe = (kernel.proc p).trapframe) (busy : proc.state ≠ .unused)
    (bound : proc.sz ≤ trapframeVa) (maps : Maps memory.cell pagetable (· < numPages proc.sz)) :
    World boot ((kernel.setMemory memory).setProc p proc) ∅ owned := by
  have pages : ∀ cell, procPages cell proc =
      (kernel.proc p).trapframe.elim 0 ({·}) + space cell pagetable := by
    intro cell
    rw [procPages, samePagetable, sameTrapframe, found, Option.elim_some]
  have taken := world.take slot (Finset.notMem_empty p)
  have before : procPages kernel.memory.cell (kernel.proc p) =
      (kernel.proc p).trapframe.elim 0 ({·}) + space kernel.memory.cell pagetable := by
    rw [procPages, found, Option.elim_some]
  rw [before] at taken
  have exchanged := taken.exchange ((change.exchange.frame_left _).frame _)
  rw [← pages] at exchanged
  apply exchanged.giveProc slot (Finset.notMem_empty p)
  refine ⟨fun unused => absurd unused busy, fun _ => ?_, ?_, bound, ?_⟩
  · rw [samePagetable, found]
    simp
  · intro table found'
    rw [samePagetable] at found'
    rcases (world.procOk slot).space table found' with ⟨trapframe, held, inner⟩
    rw [found] at found'
    cases found'
    exact ⟨trapframe, sameTrapframe.trans held, change.space inner⟩
  · intro table found'
    rw [samePagetable, found] at found'
    cases found'
    exact maps

theorem busy_of_pagetable : (kernel.proc p).state ≠ .unused := by
  intro unused
  rw [((world.procOk slot).unused unused).2.1] at found
  cases found

theorem changeSpace (change : SpaceChange pagetable kernel.memory memory)
    (maps : Maps memory.cell pagetable (· < numPages (kernel.proc p).sz)) :
    World boot (kernel.setMemory memory) ∅ owned := by
  have changed := world.changeProc slot found change rfl rfl (world.busy_of_pagetable slot found)
    (world.procOk slot).size maps
  rwa [← setMemory_proc, setProc_eq_self] at changed

end

theorem ne_trapframe (world : World boot kernel ∅ owned) (slot : p ∈ procSlots)
    (found : (kernel.proc p).trapframe = some trapframe)
    (held : (kernel.proc p).pagetable = some pagetable)
    (inside : page ∈ space kernel.memory.cell pagetable) : page ≠ trapframe := by
  have nodup := (world.take slot (Finset.notMem_empty p)).proper.left.owned_nodup
  rw [procPages, found, held, Option.elim_some, Option.elim_some, add_assoc,
    Multiset.singleton_add] at nodup
  rintro rfl
  exact (Multiset.nodup_cons.mp nodup).1 (Multiset.mem_add.mpr (.inl inside))

variable {pages' : Multiset Nat}

section

variable (world : World boot kernel ∅ (pages + owned)) (slot : p ∈ procSlots)

include world slot

theorem procPages_kept (exchange : Exchange kernel.memory pages memory pages')
    (member : page ∈ procPages kernel.memory.cell (kernel.proc p)) :
    memory.cell page = kernel.memory.cell page := by
  have proper := world.proper
  rw [add_assoc] at proper
  apply proper.untouched exchange
  rw [Multiset.mem_add, others, Multiset.mem_add, Multiset.mem_add]
  exact .inr (.inl (.inr (mem_processPages (by rwa [Finset.sdiff_empty]) member)))

theorem frame_kept (found : (kernel.proc p).trapframe = some trapframe)
    (exchange : Exchange kernel.memory pages memory pages') :
    memory.cell trapframe = kernel.memory.cell trapframe := by
  apply world.procPages_kept slot exchange
  rw [procPages, found, Option.elim_some, Multiset.mem_add, Multiset.mem_singleton]
  exact .inl rfl

theorem space_kept (found : (kernel.proc p).pagetable = some pagetable)
    (exchange : Exchange kernel.memory pages memory pages') :
    ∀ page ∈ space kernel.memory.cell pagetable, memory.cell page = kernel.memory.cell page := by
  intro page member
  apply world.procPages_kept slot exchange
  rw [procPages, found, Option.elim_some]
  exact Multiset.mem_add.mpr (.inr member)

end

theorem storeTrapframe (world : World boot kernel ∅ owned) (slot : p ∈ procSlots)
    (found : (kernel.proc p).trapframe = some trapframe) (free : memory.free = kernel.memory.free)
    (elsewhere : ∀ page, page ≠ trapframe → memory.cell page = kernel.memory.cell page) :
    World boot (kernel.setMemory memory) ∅ owned := by
  have taken := world.take slot (Finset.notMem_empty p)
  have same : SameTables kernel.memory.cell memory.cell (kernel.proc p) :=
    fun pagetable held page inside => elsewhere page
      (world.ne_trapframe slot found held (Multiset.mem_add.mpr (.inl inside)))
  have stored : World boot (kernel.setMemory memory) (insert p ∅)
      (procPages kernel.memory.cell (kernel.proc p) + owned) := by
    apply taken.exchange (Exchange.stores free _)
    intro page outside
    apply elsewhere
    rintro rfl
    apply outside
    rw [procPages, found, Option.elim_some]
    simp only [Multiset.mem_add, Multiset.mem_singleton, true_or]
  rw [← procPages_congr same] at stored
  exact stored.give slot (Finset.notMem_empty p) ((world.procOk slot).congr same)

end World

/-! ## Programs on the kernel's tables -/

section Access

omit [KernelImage]

variable {allowed : String → Prop} {kernel : Kernel} {Value : Type}

theorem onMemory_spec {post : Value → Kernel → Prop}
    (holds : wp allowed program kernel.memory fun value memory =>
      post value (kernel.setMemory memory)) : wp allowed (onMemory program) kernel post := by
  apply wp_zoom
  · exact fun _ _ => rfl
  · exact fun _ _ _ => rfl
  · exact fun _ => rfl
  · exact holds

variable {post : Unit → Kernel → Prop}

@[simp] theorem wp_modifyProc {change : Proc → Proc} :
    wp allowed (modifyProc p change) kernel post ↔
      post () (kernel.setProc p (change (kernel.proc p))) := by
  simp only [modifyProc, wp_modify]

@[simp] theorem wp_modifyFile {change : File → File} :
    wp allowed (modifyFile f change) kernel post ↔
      post () (kernel.setFiles (Function.update kernel.file f (change (kernel.file f)))) := by
  simp only [modifyFile, wp_modify]

@[simp] theorem wp_modifyPipe {change : Pipe → Pipe} :
    wp allowed (modifyPipe pi change) kernel post ↔
      post () (kernel.setPipes (Function.update kernel.pipe pi (change (kernel.pipe pi)))) := by
  simp only [modifyPipe, wp_modify]

theorem halts {post : Value → Kernel → Prop} (may : allowed message) :
    wp allowed (.panic message) kernel post :=
  Prog.wp_panic.mpr may

theorem wp_pagetableOf {post : Nat → Kernel → Prop}
    (found : (kernel.proc p).pagetable = some pagetable) (holds : post pagetable kernel) :
    wp allowed (pagetableOf p) kernel post := by
  simp only [pagetableOf, wp_bind, wp_get, found]
  exact wp_pure.mpr holds

theorem wp_trapframeOf {post : Nat → Kernel → Prop}
    (found : (kernel.proc p).trapframe = some trapframe) (holds : post trapframe kernel) :
    wp allowed (trapframeOf p) kernel post := by
  simp only [trapframeOf, wp_bind, wp_get, found]
  exact wp_pure.mpr holds

end Access

end Xv6.Kernel
