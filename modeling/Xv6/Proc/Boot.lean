import Xv6.Proc.Image

/-! # The state after boot

`kinit`, the pages that the kernel takes for itself, and `userinit`. -/

namespace Xv6.Kernel

open StateProg Vm
open Prog (wp_bind wp_mono wp_pure)

variable [KernelImage]

def kinit : MemProg Unit := freerange KernelImage.kernelEnd physTop

/-- The pages that the kernel allocates at boot and keeps: the kernel page
table, the kernel stacks and the queues of the disk. -/
def bootAlloc : Nat → MemProg (List Nat)
  | 0 => return []
  | count + 1 => do
      match ← kalloc with
      | none => .panic nullPointer
      | some pa => return pa :: (← bootAlloc count)

/-- The part of `main` that works on memory, with `count` boot-time pages. -/
def bootMemory (count : Nat) : MemProg (List Nat) := do
  kinit
  bootAlloc count

omit [KernelImage] in
/-- Memory before `kinit`. -/
def noMemory : Memory := { free := [], cell := fun _ _ => 0 }

omit [KernelImage] in
def noProc : Proc :=
  { state := .unused, pid := 0, parent := none, xstate := 0, sz := 0, pagetable := none
    trapframe := none, ofile := fun _ => none, name := [] }

omit [KernelImage] in
def noFile : File :=
  { type := .none, ref := 0, readable := false, writable := false, pipe := 0 }

omit [KernelImage] in
/-- The tables after boot. -/
def bootKernel (memory : Memory) : Kernel :=
  { memory, proc := fun _ => noProc, file := fun _ => noFile
    pipe := fun _ => { readopen := false, writeopen := false }, initproc := none, nextpid := 1 }

theorem freerangeFrom_spec (count pa : Nat) (memory : Memory) :
    wp MayPanic (freerangeFrom count pa) memory fun _ after =>
      (after.free : Multiset Nat) = List.range' pa count pgSize + memory.free := by
  induction count generalizing pa memory with
  | zero => exact wp_pure.mpr (by simp)
  | succ count induction =>
    apply wp_bind.mpr
    apply wp_mono (kfree_spec pa memory)
    rintro _ first ⟨released, _⟩
    apply wp_mono (induction (pa + pgSize) first)
    intro _ after free
    have freed : (first.free : Multiset Nat) = pa ::ₘ memory.free := by
      have conserved := (released 0).conserved
      rwa [add_zero, Multiset.add_cons, add_zero] at conserved
    rw [free, freed, List.range'_succ, ← Multiset.cons_coe, Multiset.add_cons, Multiset.cons_add]

theorem managed_eq_range : managed.val =
    (List.range' (pgRoundUp KernelImage.kernelEnd)
      ((physTop - pgRoundUp KernelImage.kernelEnd) / pgSize) pgSize : Multiset Nat) := by
  have aligned := pgRoundUp_aligned KernelImage.kernelEnd
  have nodup (first count : Nat) : (List.range' first count pgSize).Nodup :=
    List.nodup_range' pgSize (by decide)
  apply (Multiset.Nodup.ext managed.nodup (Multiset.coe_nodup.mpr (nodup _ _))).mpr
  intro pa
  rw [Finset.mem_val, managed, Finset.mem_filter, Finset.mem_range, Multiset.mem_coe,
    List.mem_range']
  generalize pgRoundUp KernelImage.kernelEnd = first at aligned ⊢
  unfold physTop kernBase pgSize at *
  constructor
  · rintro ⟨below, page, above⟩
    exact ⟨(pa - first) / 4096, by omega, by omega⟩
  · rintro ⟨i, bound, rfl⟩
    omega

omit [KernelImage] in
theorem bootAlloc_spec (count : Nat) (memory : Memory) :
    wp MayPanic (bootAlloc count) memory fun pages after => Exchange memory 0 after pages := by
  induction count generalizing memory with
  | zero => exact wp_pure.mpr (.refl _ _)
  | succ count induction =>
    apply wp_bind.mpr
    apply wp_mono (kalloc_spec memory)
    intro result first allocation
    cases result with
    | none => exact panics (by decide)
    | some pa =>
      apply wp_bind.mpr
      apply wp_mono (induction first)
      intro pages after exchange
      apply wp_pure.mpr
      have whole := (allocation.exchange 0).trans (exchange.frame_left {pa})
      rwa [Multiset.singleton_add] at whole

theorem bootMemory_spec (count : Nat) :
    wp MayPanic (bootMemory count) noMemory fun pages after =>
      (after.free : Multiset Nat) + pages = managed.val := by
  apply wp_bind.mpr
  apply wp_mono (freerangeFrom_spec _ _ noMemory)
  intro _ first free
  apply wp_mono (bootAlloc_spec count first)
  intro pages after exchange
  rw [exchange.conserved, free, managed_eq_range, add_zero]
  exact add_zero _

omit [KernelImage] in
theorem openPipes_noFile : openPipes (fun _ => noFile) = ∅ := by
  rw [Finset.eq_empty_iff_forall_notMem]
  intro pi member
  rcases mem_openPipes.mp member with ⟨_, _, type, _⟩
  cases type

variable {memory : Memory}

theorem bootKernel_balanced (partition : (memory.free : Multiset Nat) + pages = managed.val) :
    Balanced pages (bootKernel memory) 0 0 := by
  have none : processPages memory.cell (fun _ => noProc) (procSlots \ ∅) = 0 :=
    Finset.sum_eq_zero fun _ _ => rfl
  have noFiles : openFiles (fun _ => noProc) = 0 :=
    Finset.sum_eq_zero fun _ _ => Finset.sum_eq_zero fun _ _ => rfl
  refine ⟨⟨?_, ?_, ?_⟩, ?_, ?_⟩
  · rw [others]
    simp only [bootKernel, none, openPipes_noFile]
    rw [← partition]
    simp
  · intro p _
    exact ⟨fun _ => ⟨rfl, rfl, rfl⟩, by simp [bootKernel, noProc], by simp [bootKernel, noProc],
      Nat.zero_le _, by simp [bootKernel, noProc]⟩
  · refine ⟨fun _ _ => rfl, ?_, ?_, ?_, ?_⟩ <;> simp [bootKernel, noFile]
  · intro f
    simp only [bootKernel, noFiles]
    rfl
  · exact fun p _ _ fd _ => rfl

/-! ## The first process -/

theorem uvmfirst_spec (code : List UInt8) (proper : Proper memory (space memory.cell table))
    (wellFormed : WellFormed memory.cell 2 table) (maps : Maps memory.cell table (· < 0)) :
    wp MayPanic (uvmfirst table code) memory fun _ after =>
      SpaceChange table memory after ∧ Maps after.cell table (· < numPages pgSize) := by
  unfold uvmfirst
  split
  · exact panics (by decide)
  · apply wp_bind.mpr
    apply wp_mono (kalloc_spec memory)
    intro result first allocation
    cases result with
    | none => exact panics (by decide)
    | some mem =>
      simp only [wp_bind, wp_fillPage]
      have below : pageRange 0 1 ⊆ userRange 0 := pageRange_subset_userRange (by decide)
      have safe := proper.mayPanic.of_le (Multiset.le_add_right _ _)
      have start : Filled table 0 0 (fun _ => pteW ||| pteR ||| pteX ||| pteU) (fun _ _ => 0)
        memory memory := .start wellFormed
      apply wp_mono (start.mappages_spec (fun _ => by decide) safe maps.above (by decide)
        (by decide) (allocation.store fun _ => 0) (Function.update_self _ _ _))
      intro done middle mapping
      cases done with
      | false => exact panics (by decide)
      | true =>
        simp only [if_true, writePage, wp_modify] at mapping ⊢
        have filled : Filled table 0 1 _ _ memory middle := mapping.1
        have change := filled.toRemapped.spaceChange below
        have member : mem ∈ userPages middle.cell table := by
          have good := proper.good mem (Multiset.mem_add.mpr (.inl allocation.free))
          have entry : leafAt middle.cell 0 2 table =
            pa2pte mem ||| (pteW ||| pteR ||| pteX ||| pteU) ||| pteV := mapping.2
          have inside : pte2pa (leafAt middle.cell 0 2 table) ∈ userPages middle.cell table :=
            mem_userPages (by decide) (own_of_lt (by decide) (by decide))
              (by rw [entry]; exact hasFlag_pteV)
          rwa [entry, Nat.or_assoc, pte2pa_entry good.1 (by decide)] at inside
        have stored := ContentsChange.storePage (proper.exchange change.exchange)
          change.wellFormed member
        exact ⟨change.trans (stored _).toSpaceChange, (stored _).maps _ (filled.maps maps)⟩

variable {boot owned held : Multiset Nat} {kernel : Kernel}

theorem Balanced.setInitproc (balanced : Balanced boot kernel owned held)
    (initproc : Option Nat) :
    Balanced boot { kernel with initproc := initproc } owned held :=
  ⟨⟨balanced.world.partition, balanced.world.procs, balanced.world.files⟩,
    ⟨balanced.refs.count, balanced.refs.closed⟩⟩

def firstProcess (proc : Proc) : Proc :=
  { proc with
    sz := pgSize
    name := safestrcpy "initcode".toUTF8.toList
    state := .runnable }

theorem loadFirst_spec (initcode : List UInt8) (balanced : Balanced boot kernel owned held)
    (slot : p ∈ procSlots) (found : (kernel.proc p).pagetable = some pagetable)
    (size : (kernel.proc p).sz = 0) :
    wp MayPanic (do
        onMemory (uvmfirst (← pagetableOf p) initcode)
        modifyProc p firstProcess) kernel fun _ after => Balanced boot after owned held := by
  have ok := balanced.world.procOk slot
  rcases ok.space pagetable found with ⟨_, _, space⟩
  have maps := ok.maps pagetable found
  rw [size] at maps
  apply wp_bind.mpr
  apply wp_pagetableOf found
  apply wp_bind.mpr
  apply onMemory_spec
  apply wp_mono (uvmfirst_spec initcode (balanced.world.properSpace slot found)
    space.wellFormed maps)
  rintro _ memory ⟨change, maps'⟩
  apply wp_modifyProc.mpr
  constructor
  · exact balanced.world.changeProc slot found change rfl rfl (by simp [firstProcess])
      (show pgSize ≤ trapframeVa by decide) maps'
  · exact (balanced.refs.of_memory memory).updateProc (by rfl) (.inr (by simp [firstProcess]))

theorem userinit_spec (initcode : List UInt8) (balanced : Balanced boot kernel owned held) :
    wp MayPanic (userinit initcode) kernel fun _ after => Balanced boot after owned held := by
  unfold userinit
  apply wp_bind.mpr
  apply wp_mono (allocproc_spec balanced)
  intro result first holds
  cases result with
  | none => exact halts (by decide)
  | some p =>
    rcases holds with ⟨slot, _, allocated⟩
    rcases Option.ne_none_iff_exists'.mp allocated.pagetable with ⟨pagetable, found⟩
    apply wp_bind.mpr
    apply wp_modify.mpr
    exact loadFirst_spec initcode (allocated.balanced.setInitproc (some p)) slot found
      allocated.size

end Xv6.Kernel
