import Xv6.Proc.Boot

/-! # Conservation of physical pages

Runs of system calls by any number of processes, with `kalloc` failing at any
call. Between calls every page has exactly one owner. -/

namespace Xv6.Kernel

open StateProg Vm
open Prog (wp_bind wp_mono wp_pure)

/-- What a process can do to the kernel's memory. -/
inductive Call where
  | fork
  | exec (uargv : Nat) (path : List UInt8) (file : Option (List UInt8))
  | sbrk (n : Int)
  | exit (status : Int)
  | wait (addr : Nat)
  | pipe (fdarray : Nat)
  | close (fd : Int)
  | dup (fd : Int)
  | open (device readable writable : Bool)
  /-- A store by the program, or by a call that returns data such as `read`. -/
  | store (va : Nat) (bytes : List UInt8)

inductive Label where
  /-- The first process is made. -/
  | userinit (initcode : List UInt8)
  | call (p : Nat) (call : Call)

variable [KernelImage]

/-- The program that a call runs, its result left out. -/
def program (p : Nat) : Call → KernelProg Unit
  | .fork => do let _ ← fork p
  | .exec uargv path file => do let _ ← sysExec p uargv path file
  | .sbrk n => do let _ ← growproc p n
  | .exit status => exit p status
  | .wait addr => do let _ ← wait p addr
  | .pipe fdarray => do let _ ← sysPipe p fdarray
  | .close fd => do let _ ← sysClose p fd
  | .dup fd => do let _ ← sysDup p fd
  | .open device readable writable => do let _ ← sysOpen p device readable writable
  | .store va bytes => do let _ ← onMemory (Vm.copyout (← pagetableOf p) va bytes)

/-- One step: a call of a process that can run, with the answers to its choices. -/
def step (kernel : Kernel) : Label × List Nat → Outcome Kernel
  | (.userinit initcode, answers) =>
    if kernel.initproc = none then
      (Prog.run StateOp.handle (userinit initcode) kernel answers).map Prod.snd
    else .disabled
  | (.call p call, answers) =>
    if p < nproc ∧ (kernel.proc p).state = .runnable then
      (Prog.run StateOp.handle (program p call) kernel answers).map Prod.snd
    else .disabled

section Runs

variable {boot owned held : Multiset Nat} {kernel after : Kernel} {p : Nat}

omit [KernelImage] in
theorem wp_discard {Value : Type} {program : KernelProg Value} {post : Kernel → Prop}
    (holds : wp MayPanic program kernel fun _ after => post after) :
    wp MayPanic (do let _ ← program) kernel fun _ after => post after :=
  wp_bind.mpr (wp_mono holds fun _ _ kept => wp_pure.mpr kept)

theorem program_spec (call : Call) (balanced : Balanced boot kernel owned held)
    (running : Running kernel p) :
    wp MayPanic (program p call) kernel fun _ after => Balanced boot after owned held := by
  cases call with
  | fork => exact wp_discard (fork_spec balanced running)
  | exec uargv path file =>
    have placed : Placed MayPanic := .inl ⟨by decide, by decide⟩
    apply wp_discard
    apply wp_mono (sysExec_spec placed uargv path file balanced running)
    exact fun _ after kept => kept.1
  | sbrk n => exact wp_discard (growproc_spec n balanced running)
  | exit status => exact exit_spec status balanced running
  | wait addr => exact wp_discard (wait_spec addr balanced running)
  | pipe fdarray => exact wp_discard (sysPipe_spec fdarray balanced running)
  | close fd => exact wp_discard (sysClose_spec fd balanced running)
  | dup fd => exact wp_discard (sysDup_spec fd balanced running)
  | «open» device readable writable =>
    exact wp_discard (sysOpen_spec device readable writable balanced running)
  | store va bytes =>
    rcases balanced.pagetable running with ⟨pagetable, found⟩
    apply wp_bind.mpr
    apply wp_pagetableOf found
    apply wp_discard
    apply wp_mono (balanced.copyout running.slot found va bytes)
    exact fun _ after kept => kept.1

theorem step_spec (balanced : Balanced boot kernel owned held) (label : Label × List Nat) :
    (∀ after, step kernel label = .next after → Balanced boot after owned held) ∧
      ∀ message, step kernel label = .panic message → MayPanic message := by
  have whole {program : KernelProg Unit} {answers : List Nat}
      (holds : wp MayPanic program kernel fun _ after => Balanced boot after owned held) :
      (∀ after, (Prog.run StateOp.handle program kernel answers).map Prod.snd = .next after →
        Balanced boot after owned held) ∧
      ∀ message, (Prog.run StateOp.handle program kernel answers).map Prod.snd = .panic message →
        MayPanic message := by
    constructor
    · intro after ended
      rcases (Outcome.map_eq_next_iff _ _ _).mp ended with ⟨⟨_, last⟩, run, rfl⟩
      exact Prog.run_eq_next holds run
    · intro message ended
      exact Prog.run_eq_panic holds ((Outcome.map_eq_panic_iff _ _ _).mp ended)
  rcases label with ⟨_ | _, answers⟩
  · rename_i initcode
    simp only [step]
    split
    · exact whole (userinit_spec initcode balanced)
    · simp
  · rename_i p call
    simp only [step]
    split
    · rename_i running
      exact whole (program_spec call balanced ⟨mem_procSlots.mpr running.1, running.2⟩)
    · simp

theorem run_balanced (run : Steps step kernel labels after)
    (balanced : Balanced boot kernel owned held) : Balanced boot after owned held := by
  apply run.invariant _ balanced
  exact fun _ label next kept moved => (step_spec kept label).1 next moved

end Runs

/-! ## Owners -/

inductive Owner where
  | freelist
  | boot
  | pageTable (p : Nat)
  | leaf (p vpn : Nat)
  | trapframe (p : Nat)
  | pipe (pi : Nat)
  deriving DecidableEq

omit [KernelImage] in
/-- Whether a descriptor of some process names an end of the pipe. -/
def heldPipe (kernel : Kernel) (pi : Nat) : Bool :=
  (List.range nproc).any fun p =>
    (List.range nofile).any fun fd =>
      match (kernel.proc p).ofile fd with
      | none => false
      | some f => (kernel.file f).type == .pipe && (kernel.file f).pipe == pi

omit [KernelImage] in
/-- The pages that an owner has; a page that it has twice occurs twice. -/
def holdings (boot : Multiset Nat) (kernel : Kernel) : Owner → Multiset Nat
  | .freelist => kernel.memory.free
  | .boot => boot
  | .pageTable p =>
    if p ∈ procSlots then (kernel.proc p).pagetable.elim 0 (tables kernel.memory.cell 2) else 0
  | .leaf p vpn =>
    if p ∈ procSlots ∧ vpn ∈ ownVpns then
      (kernel.proc p).pagetable.elim 0 fun pagetable =>
        mapped (leafAt kernel.memory.cell (vpn * pgSize) 2 pagetable)
    else 0
  | .trapframe p => if p ∈ procSlots then (kernel.proc p).trapframe.elim 0 ({·}) else 0
  | .pipe pi => if heldPipe kernel pi then {pi} else 0

/-- The owners that may have pages. -/
def owners (kernel : Kernel) : Multiset Owner :=
  .freelist ::ₘ .boot ::ₘ
    (procSlots.val.bind fun p =>
      .trapframe p ::ₘ .pageTable p ::ₘ ownVpns.val.map fun vpn => .leaf p vpn) +
    (openPipes kernel.file).val.map .pipe

section Owners

omit [KernelImage]

variable {boot : Multiset Nat} {kernel : Kernel}

theorem leafHoldings {p : Nat} (slot : p ∈ procSlots) {vpns : Finset Nat}
    (inside : vpns ⊆ ownVpns) :
    ((vpns.val.map fun vpn => Owner.leaf p vpn).map (holdings boot kernel)).sum =
      (kernel.proc p).pagetable.elim 0 fun pagetable =>
        leafPages (fun va => leafAt kernel.memory.cell va 2 pagetable) vpns := by
  have each : ∀ vpn ∈ vpns, holdings boot kernel (.leaf p vpn) =
      (kernel.proc p).pagetable.elim 0 fun pagetable =>
        mapped (leafAt kernel.memory.cell (vpn * pgSize) 2 pagetable) := by
    intro vpn member
    rw [holdings, if_pos ⟨slot, inside member⟩]
  rw [Multiset.map_map]
  change ∑ vpn ∈ vpns, holdings boot kernel (.leaf p vpn) = _
  rw [Finset.sum_congr rfl each]
  cases (kernel.proc p).pagetable with
  | none => simp only [Option.elim_none, Finset.sum_const_zero]
  | some pagetable => simp only [Option.elim_some, leafPages]

theorem procHoldings (slot : p ∈ procSlots) :
    ((Owner.trapframe p ::ₘ .pageTable p ::ₘ ownVpns.val.map fun vpn => .leaf p vpn).map
      (holdings boot kernel)).sum = procPages kernel.memory.cell (kernel.proc p) := by
  have inside : ownVpns ⊆ ownVpns := fun _ member => member
  have leaves := @leafHoldings boot kernel p slot ownVpns inside
  generalize ownVpns.val.map (fun vpn => Owner.leaf p vpn) = leafOwners at leaves ⊢
  have trapframe : holdings boot kernel (.trapframe p) =
      (kernel.proc p).trapframe.elim 0 ({·}) := by
    rw [holdings, if_pos slot]
  have pageTable : holdings boot kernel (.pageTable p) =
      (kernel.proc p).pagetable.elim 0 (tables kernel.memory.cell 2) := by
    rw [holdings, if_pos slot]
  rw [Multiset.map_cons, Multiset.map_cons, Multiset.sum_cons, Multiset.sum_cons, leaves,
    trapframe, pageTable, procPages]
  cases (kernel.proc p).pagetable with
  | none => rw [Option.elim_none, Option.elim_none, Option.elim_none, add_zero]
  | some pagetable => rw [Option.elim_some, Option.elim_some, Option.elim_some, space, userPages]

variable {pi : Nat}

theorem heldPipe_iff : heldPipe kernel pi = true ↔
    ∃ p ∈ procSlots, ∃ fd ∈ fdSlots, ∃ f, (kernel.proc p).ofile fd = some f ∧
      (kernel.file f).type = .pipe ∧ (kernel.file f).pipe = pi := by
  simp only [heldPipe, List.any_eq_true, List.mem_range, mem_procSlots, mem_fdSlots]
  constructor
  · rintro ⟨p, slot, fd, inside, holds⟩
    cases found : (kernel.proc p).ofile fd with
    | none => simp [found] at holds
    | some f =>
      simp only [found, Bool.and_eq_true, beq_iff_eq] at holds
      exact ⟨p, slot, fd, inside, f, found, holds⟩
  · rintro ⟨p, slot, fd, inside, f, found, holds⟩
    refine ⟨p, slot, fd, inside, ?_⟩
    simp [found, holds]

theorem heldPipe_iff_open (refs : Refs kernel 0) (files : FilesOk kernel.file kernel.pipe) :
    heldPipe kernel pi = true ↔ pi ∈ openPipes kernel.file := by
  rw [heldPipe_iff, mem_openPipes]
  constructor
  · rintro ⟨p, slot, fd, inside, f, found, type, equal⟩
    exact ⟨f, files.bounded f type, type, equal⟩
  · rintro ⟨f, bound, type, equal⟩
    have positive : 0 < (openFiles kernel.proc).count f := by
      have count := refs.count f
      rw [add_zero] at count
      rw [← count, Nat.pos_iff_ne_zero]
      intro zero
      rw [files.closed f zero] at type
      cases type
    rcases Multiset.mem_sum.mp (Multiset.count_pos.mp positive) with ⟨p, slot, member⟩
    rcases Multiset.mem_sum.mp member with ⟨fd, inside, member⟩
    cases found : (kernel.proc p).ofile fd with
    | none => simp [found, fdFile] at member
    | some g =>
      rw [found, fdFile, Option.elim_some, Multiset.mem_singleton] at member
      subst g
      exact ⟨p, slot, fd, inside, f, found, type, equal⟩

theorem holdings_eq_zero (refs : Refs kernel 0) (files : FilesOk kernel.file kernel.pipe)
    (outside : owner ∉ owners kernel) : holdings boot kernel owner = 0 := by
  simp only [owners, Multiset.mem_add, Multiset.mem_cons, Multiset.mem_bind, Multiset.mem_map,
    Finset.mem_val, not_or] at outside
  rcases outside with ⟨⟨notFree, notBoot, notProc⟩, notPipe⟩
  cases owner with
  | freelist => exact absurd rfl notFree
  | boot => exact absurd rfl notBoot
  | pageTable p =>
    rw [holdings, if_neg]
    exact fun slot => notProc ⟨p, slot, .inr (.inl rfl)⟩
  | leaf p vpn =>
    rw [holdings, if_neg]
    exact fun inside => notProc ⟨p, inside.1, .inr (.inr ⟨vpn, inside.2, rfl⟩)⟩
  | trapframe p =>
    rw [holdings, if_neg]
    exact fun slot => notProc ⟨p, slot, .inl rfl⟩
  | pipe pi =>
    rw [holdings, if_neg]
    exact fun held => notPipe ⟨pi, (heldPipe_iff_open refs files).mp held, rfl⟩

end Owners

variable {boot : Multiset Nat} {kernel : Kernel}

theorem holdings_sum (balanced : Balanced boot kernel 0 0) :
    ((owners kernel).map (holdings boot kernel)).sum = managed.val := by
  have pipes : (((openPipes kernel.file).val.map Owner.pipe).map (holdings boot kernel)).sum =
      (openPipes kernel.file).val := by
    have each : ∀ pi ∈ (openPipes kernel.file).val,
        (holdings boot kernel ∘ Owner.pipe) pi = {pi} := by
      intro pi member
      rw [Function.comp_apply, holdings,
        if_pos ((heldPipe_iff_open balanced.refs balanced.world.files).mpr member)]
    rw [Multiset.map_map, Multiset.map_congr rfl each, Multiset.sum_map_singleton]
  have procs : ((procSlots.val.bind fun p => Owner.trapframe p ::ₘ .pageTable p ::ₘ
      ownVpns.val.map fun vpn => .leaf p vpn).map (holdings boot kernel)).sum =
        processPages kernel.memory.cell kernel.proc procSlots := by
    rw [Multiset.map_bind, Multiset.sum_bind]
    apply congrArg Multiset.sum
    apply Multiset.map_congr rfl
    exact fun p slot => procHoldings slot
  have partition := balanced.world.partition
  rw [others, Finset.sdiff_empty, zero_add] at partition
  rw [owners, Multiset.map_add, Multiset.sum_add, Multiset.map_cons, Multiset.map_cons,
    Multiset.sum_cons, Multiset.sum_cons, pipes, procs, ← partition]
  exact add_assoc _ _ _

/-- Between system calls, every page that `kinit` gave to the allocator is on
the free list once, or is a boot-time page, or is owned by one page table, one
leaf mapping, one trapframe or one open pipe, and once by it. Nothing else is
owned by anyone. -/
theorem page_conservation {count : Nat} {answers pages : List Nat} {memory : Memory}
    {labels : List (Label × List Nat)} {kernel : Kernel}
    (boots : Prog.run StateOp.handle (bootMemory count) noMemory answers = .next (pages, memory))
    (run : Steps step (bootKernel memory) labels kernel) :
    (∀ pa ∈ managed, ∃ owner, (holdings pages kernel owner).count pa = 1 ∧
      ∀ other, other ≠ owner → pa ∉ holdings pages kernel other) ∧
    ∀ owner, ∀ pa ∈ holdings pages kernel owner, pa ∈ managed := by
  have balanced : Balanced pages kernel 0 0 :=
    run_balanced run (bootKernel_balanced (Prog.run_eq_next (bootMemory_spec count) boots))
  have total := holdings_sum balanced
  have outside : ∀ owner, owner ∉ owners kernel →
      holdings (pages : Multiset Nat) kernel owner = 0 :=
    fun owner absent => holdings_eq_zero balanced.refs balanced.world.files absent
  constructor
  · intro pa inside
    have once : ((owners kernel).map fun owner =>
        (holdings (pages : Multiset Nat) kernel owner).count pa).sum = 1 := by
      rw [← Multiset.count_sum, total]
      exact Multiset.count_eq_one_of_mem managed.nodup inside
    rcases exists_of_sum_eq_one once with ⟨owner, _, one, others⟩
    refine ⟨owner, one, ?_⟩
    intro other different
    by_cases member : other ∈ owners kernel
    · exact Multiset.count_eq_zero.mp (others other member different)
    · rw [outside other member]
      exact Multiset.notMem_zero pa
  · intro owner pa held
    have member : owner ∈ owners kernel := by
      by_contra absent
      rw [outside owner absent] at held
      exact Multiset.notMem_zero pa held
    rw [← Finset.mem_val, ← total]
    exact Multiset.mem_of_le (Multiset.le_sum_of_mem (Multiset.mem_map_of_mem _ member)) held

/-! A machine with 24 pages for processes, on which `init` forks a child, grows
and lets the child make a pipe and exit. -/

section Small

omit [KernelImage]

def smallBoot : Outcome (List Nat × Memory) :=
  Prog.run StateOp.handle (@bootMemory smallImage 2) noMemory []

def smallCalls : List (Label × List Nat) :=
  [(.userinit [0x73], []), (.call 0 .fork, []), (.call 0 (.sbrk 4096), []),
    (.call 1 (.pipe 0), []), (.call 1 (.exit 0), [])]

theorem page_conservation_small : ∃ pages memory kernel,
    Prog.run StateOp.handle (@bootMemory smallImage 2) noMemory [] = .next (pages, memory) ∧
    Steps (@step smallImage) (bootKernel memory) smallCalls kernel ∧
    (∀ pa ∈ @managed smallImage, ∃ owner, (holdings pages kernel owner).count pa = 1 ∧
      ∀ other, other ≠ owner → pa ∉ holdings pages kernel other) ∧
    ∀ owner, ∀ pa ∈ holdings pages kernel owner, pa ∈ @managed smallImage := by
  have booted := Outcome.eq_next_of_isNext ([], noMemory)
    (show smallBoot.isNext = true by decide +kernel)
  have ran := Outcome.eq_next_of_isNext (bootKernel noMemory)
    (show (runSteps (@step smallImage) (bootKernel (smallBoot.getD ([], noMemory)).2)
      smallCalls).isNext = true by decide +kernel)
  have run := steps_iff_runSteps.mpr ran
  exact ⟨_, _, _, booted, run, @page_conservation smallImage _ _ _ _ _ _ booted run⟩

end Small

end Xv6.Kernel
