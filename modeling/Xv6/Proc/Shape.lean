import Xv6.Proc.System

/-! # The shape of address spaces

Below the trapframe, a process has exactly the pages up to its size. The calls
keep this through every failure, so that the tests in `vm.c` for pages that are
missing or too many never stop the kernel. -/

namespace Xv6.Kernel

open StateProg Vm

variable [KernelImage]

/-- What the page table of a process of size `sz` maps. The two pages at the top
are the last ones below `MAXVA`. -/
structure AddressSpace (cell : Nat → Page) (pagetable trapframe sz : Nat) : Prop where
  below : ∀ va < trapframeVa, va % pgSize = 0 →
    (hasFlag (leafAt cell va 2 pagetable) pteV = true ↔ va < pgRoundUp sz)
  trapframe : leafAt cell trapframeVa 2 pagetable = pa2pte trapframe ||| (pteR ||| pteW) ||| pteV
  trampoline : leafAt cell trampolineVa 2 pagetable =
    pa2pte KernelImage.trampoline ||| (pteR ||| pteX) ||| pteV

omit [KernelImage] in
/-- A page is one of the pages of a process when it begins below the rounded size. -/
theorem div_lt_numPages : va / pgSize < numPages sz ↔ va < pgRoundUp sz := by
  rw [← numPages_mul sz]
  exact Nat.div_lt_iff_lt_mul (by decide)

theorem ProcOk.addressSpace {cell : Nat → Page} {proc : Proc} {pagetable : Nat}
    (ok : ProcOk cell proc) (found : proc.pagetable = some pagetable) :
    ∃ trapframe, proc.trapframe = some trapframe ∧
      AddressSpace cell pagetable trapframe proc.sz := by
  rcases ok.space pagetable found with ⟨trapframe, held, space⟩
  refine ⟨trapframe, held, ?_, space.trapframe, space.trampoline⟩
  intro va below aligned
  have holds := ok.maps pagetable found _ (own_of_lt aligned below)
  rw [Nat.div_mul_cancel (Nat.dvd_of_mod_eq_zero aligned)] at holds
  exact holds.trans div_lt_numPages

/-- Between system calls, every process has the address space of its size, and no
call stops with one of the panics about pages that are mapped or not mapped. -/
theorem address_space_shape {count : Nat} {answers pages : List Nat} {memory : Memory}
    {labels : List (Label × List Nat)} {kernel : Kernel}
    (boots : Prog.run StateOp.handle (bootMemory count) noMemory answers = .next (pages, memory))
    (run : Steps step (bootKernel memory) labels kernel) :
    (∀ p < nproc, (kernel.proc p).state = .runnable ∨ (kernel.proc p).state = .zombie →
      ∃ pagetable trapframe, (kernel.proc p).pagetable = some pagetable ∧
        (kernel.proc p).trapframe = some trapframe ∧
        AddressSpace kernel.memory.cell pagetable trapframe (kernel.proc p).sz) ∧
    ∀ label message, step kernel label = .panic message → message ∉ shapePanics := by
  have balanced : Balanced pages kernel 0 0 :=
    run_balanced run (bootKernel_balanced (Prog.run_eq_next (bootMemory_spec count) boots))
  constructor
  · intro p bound live
    have ok := balanced.world.procOk (mem_procSlots.mpr bound)
    rcases Option.ne_none_iff_exists'.mp (ok.live live) with ⟨pagetable, found⟩
    rcases ok.addressSpace found with ⟨trapframe, held, shape⟩
    exact ⟨pagetable, trapframe, found, held, shape⟩
  · intro label message stops
    exact ((step_spec balanced label).2 message stops).2.2

omit [KernelImage] in
/-- On the small machine both processes have an address space at the end, and the
second one is a zombie. -/
theorem address_space_shape_small : ∃ pages memory kernel,
    Prog.run StateOp.handle (@bootMemory smallImage 2) noMemory [] = .next (pages, memory) ∧
    Steps (@step smallImage) (bootKernel memory) smallCalls kernel ∧
    (kernel.proc 0).state = .runnable ∧ (kernel.proc 1).state = .zombie ∧
    (∀ p < nproc, (kernel.proc p).state = .runnable ∨ (kernel.proc p).state = .zombie →
      ∃ pagetable trapframe, (kernel.proc p).pagetable = some pagetable ∧
        (kernel.proc p).trapframe = some trapframe ∧
        @AddressSpace smallImage kernel.memory.cell pagetable trapframe (kernel.proc p).sz) ∧
    ∀ label message, @step smallImage kernel label = .panic message → message ∉ shapePanics := by
  have booted := Outcome.eq_next_of_isNext ([], noMemory)
    (show smallBoot.isNext = true by decide +kernel)
  have ran := Outcome.eq_next_of_isNext (bootKernel noMemory)
    (show (runSteps (@step smallImage) (bootKernel (smallBoot.getD ([], noMemory)).2)
      smallCalls).isNext = true by decide +kernel)
  have run := steps_iff_runSteps.mpr ran
  exact ⟨_, _, _, booted, run, by decide +kernel, by decide +kernel,
    @address_space_shape smallImage _ _ _ _ _ _ booted run⟩

end Xv6.Kernel
