import Xv6.Proc.ReadOnly

/-! # Programs that `exec` starts

What a process finds in its memory and its registers after `exec`, and what `exec` leaves of
a file that it does not accept. -/

namespace Xv6.Kernel

open StateProg Vm
open Prog (wp_bind wp_mono wp_pure)

section Calls

variable [KernelImage] {boot owned held : Multiset Nat} {kernel after : Kernel}
  {p trapframe : Nat} {path : List UInt8} {file : List UInt8} {new : Image} {image : Nat → UInt8}

omit [KernelImage] in
theorem Executed.proc (executed : Executed kernel after p trapframe path new image) :
    after.proc p = withImage path new.pagetable new.sz (kernel.proc p) := by
  rw [executed.record, setMemory_proc, setProc_proc_self]

theorem Executed.userByte (executed : Executed kernel after p trapframe path new image)
    (balanced : Balanced boot after owned held) (slot : p ∈ procSlots)
    (positive : 0 < KernelImage.kernelEnd) (bound : KernelImage.kernelEnd ≤ physTop)
    (inside : va / pgSize < numPages new.sz) (user : va / pgSize ≠ new.sz / pgSize - 2) :
    Accessible after.memory.cell new.pagetable va ∧
      Vm.userByte after.memory.cell new.pagetable va = image va := by
  have safe : Safe NoPanic after.memory (Vm.space after.memory.cell new.pagetable) :=
    balanced.world.safeSpace bound slot (congrArg Proc.pagetable executed.proc)
  rcases executed.holds.found safe (.inr ⟨id, positive, bound⟩) inside (by simpa using user) with
    impossible | ⟨pa, found, contents⟩
  · exact impossible.elim
  · have small : va % pgSize < pgSize := Nat.mod_lt _ (by decide)
    rw [Accessible, Vm.userByte, found, Option.elim_some, contents, Bytes.byteAt, dif_pos small,
      pageOf, Nat.div_add_mod' va pgSize]
    exact ⟨rfl, rfl⟩

omit [KernelImage] in
theorem decode_write {frame : Page} (fits : offset + 8 ≤ pgSize) (small : value < 2 ^ 64) :
    Bytes.decode ((frame.write offset (Bytes.encode 8 value)).read offset 8) = value := by
  have same := Bytes.read_write_same frame offset (Bytes.encode 8 value)
    (by rwa [Bytes.encode_length])
  rw [Bytes.encode_length] at same
  rw [same, Bytes.decode_encode_of_lt small]

omit [KernelImage] in
theorem startFrame_epc (frame : Page) (small : new.entry < 2 ^ 64) :
    Bytes.decode ((startFrame new frame).read 24 8) = new.entry := by
  rw [startFrame, Bytes.read_write_disjoint _ _ (.inr (by decide))]
  exact decode_write (by decide) small

omit [KernelImage] in
theorem startFrame_sp (frame : Page) (small : new.sp < 2 ^ 64) :
    Bytes.decode ((startFrame new frame).read 48 8) = new.sp :=
  decode_write (by decide) small

omit [KernelImage] in
theorem startFrame_a1 (frame : Page) (small : new.sp < 2 ^ 64) :
    Bytes.decode ((startFrame new frame).read 120 8) = new.sp := by
  have length := Bytes.encode_length 8
  rw [startFrame, Bytes.read_write_disjoint _ _ (.inl (by rw [length]; decide)),
    Bytes.read_write_disjoint _ _ (.inl (by rw [length]; decide))]
  exact decode_write (by decide) small

/-- `exec` loads the program of the file, with a guard page and a stack page above it. -/
theorem sysExec_loads_image (balanced : Balanced boot kernel owned held)
    (running : Running kernel p) (positive : 0 < KernelImage.kernelEnd)
    (bound : KernelImage.kernelEnd ≤ physTop) (uargv : Nat) (path : List UInt8)
    (small : file.length < 2 ^ 32) :
    wp NoPanic (sysExec p uargv path (some file)) kernel fun ret after => ret ≠ -1 →
      ∃ table trapframe low, (after.proc p).pagetable = some table ∧
        (after.proc p).trapframe = some trapframe ∧
        low = pgRoundUp (programEnd (file.take elfhdrSize) file) ∧
        (after.proc p).sz = low + 2 * pgSize ∧
        (∀ va < low, Accessible after.memory.cell table va ∧
          userByte after.memory.cell table va = programImage (file.take elfhdrSize) file va) ∧
        (∃ pte contents, userPageAt after.memory.cell table (low / pgSize) =
          some (pte, contents) ∧ hasFlag pte pteU = false) ∧
        (∀ va, low + pgSize ≤ va → va < low + 2 * pgSize → Accessible after.memory.cell table va) ∧
        Bytes.decode ((after.memory.cell trapframe).read 24 8) =
          field (file.take elfhdrSize) 24 8 := by
  apply wp_mono (sysExec_spec (.inr ⟨id, positive, bound⟩) uargv path (some file) balanced running)
  rintro ret after ⟨last, texts, few, ended⟩ went
  rcases ended with ⟨failed, _⟩ | ⟨_, bytes, trapframe, new, image, given, built, done⟩
  · exact absurd failed went
  · cases given
    have header : readi file 0 elfhdrSize = file.take elfhdrSize := by
      simp [readi, elfhdrSize]
    rw [header] at built
    rcases built.program small with ⟨size, contents⟩
    have proc := done.proc
    have aligned := pgRoundUp_aligned (programEnd (file.take elfhdrSize) file)
    have limit := done.holds.bound
    have user : ∀ va, _ → _ → _ := fun va inside different =>
      done.userByte last running.slot positive bound (show va / pgSize < _ from inside) different
    have guard := done.holds.page
    rw [size] at user guard limit
    refine ⟨new.pagetable, trapframe, _, congrArg Proc.pagetable proc,
      (congrArg Proc.trapframe proc).trans done.found, rfl, (congrArg Proc.sz proc).trans size, ?_⟩
    generalize pgRoundUp (programEnd (file.take elfhdrSize) file) = low at *
    have pages : numPages (low + 2 * pgSize) = low / pgSize + 2 := by
      rw [numPages_of_aligned limit (by unfold pgSize at *; omega)]
      unfold pgSize
      omega
    have top : (low + 2 * pgSize) / pgSize - 2 = low / pgSize := by
      unfold pgSize
      omega
    rw [pages, top] at user guard
    refine ⟨?_, ?_, ?_, ?_⟩
    · intro va below
      rw [← contents va below]
      exact user va (by unfold pgSize at *; omega) (by unfold pgSize at *; omega)
    · rcases guard _ (Nat.lt_add_of_pos_right Nat.two_pos) with ⟨pte, here, isUser⟩
      refine ⟨pte, _, here, ?_⟩
      rw [← Bool.not_eq_true, isUser]
      exact fun different => different rfl
    · intro va above below
      exact (user va (by unfold pgSize at *; omega) (by unfold pgSize at *; omega)).1
    · rw [done.frame, startFrame_epc _ _, built.entry]
      rw [built.entry]
      exact field_lt _ 24 8

/-- `exec` builds the argument stack in the stack page, or returns -1 if it does not fit. -/
theorem exec_builds_argStack {argv : List Nat} (balanced : Balanced boot kernel (argv + owned) held)
    (running : Running kernel p) (positive : 0 < KernelImage.kernelEnd)
    (bound : KernelImage.kernelEnd ≤ physTop) (path : List UInt8) (file : Option (List UInt8))
    (short : ∀ arg ∈ argv, (textAt kernel.memory arg).length < pgSize)
    (few : argv.length < maxArg) :
    (wp NoPanic (exec p path file argv) kernel fun ret after =>
      (ret ≠ -1 → ret = argv.length ∧ ∃ table trapframe sp image,
        (after.proc p).pagetable = some table ∧ (after.proc p).trapframe = some trapframe ∧
        (∀ va, (after.proc p).sz - pgSize ≤ va → va < (after.proc p).sz →
          Accessible after.memory.cell table va ∧ userByte after.memory.cell table va = image va) ∧
        ArgStack image (after.proc p).sz sp (argv.map (textAt kernel.memory)) ∧
        sp < (after.proc p).sz ∧
        Bytes.decode ((after.memory.cell trapframe).read 48 8) = sp ∧
        Bytes.decode ((after.memory.cell trapframe).read 120 8) = sp) ∧
      (pgSize < stackNeed (argv.map (textAt kernel.memory)) → ret = -1)) ∧
    ∀ {before memory : Memory} {table trapframe sz : Nat} {guard : Option Nat}
        {image : Nat → UInt8}, StackPage sz guard →
      (∀ arg ∈ argv, before.cell arg = kernel.memory.cell arg ∧
        arg ∉ (before.free : Multiset Nat) + Vm.space before.cell table) →
      Loading NoPanic before memory table trapframe sz guard image →
      (wp NoPanic (pushStack table sz argv) memory fun result after => ∃ image',
        Loading NoPanic before after table trapframe sz guard image' ∧
        (∀ va < sz - pgSize, image' va = image va) ∧
        (result = none ↔ pgSize < stackNeed (argv.map (textAt kernel.memory)))) ∧
      ∀ sp n, sz - pgSize ≤ sp → sp ≤ sz → n ≤ pgSize → n ≤ sp ∧ sub64 sp n = sp - n := by
  have placed : Placed NoPanic := .inr ⟨id, positive, bound⟩
  constructor
  · apply wp_mono (exec_spec placed path file balanced running short few)
    rintro ret after ⟨last, ended⟩
    rcases ended with ⟨failed, _⟩ | ⟨went, bytes, trapframe, new, image, _, built, done⟩
    · exact ⟨fun went => absurd failed went, fun _ => failed⟩
    · refine ⟨fun _ => ⟨by simpa using went, ?_⟩, fun big => absurd big (Nat.not_lt.mpr built.fits)⟩
      have proc := done.proc
      have size : (after.proc p).sz = new.sz := congrArg Proc.sz proc
      have room := built.room
      have limit := done.holds.bound
      have up := le_pgRoundUp limit
      rcases built.stack.array with ⟨pushed, holds, _⟩
      have below := holds.bound
      have small : new.sp < 2 ^ 64 := by
        unfold trapframeVa trampolineVa maxVa at limit
        omega
      rw [size]
      refine ⟨new.pagetable, trapframe, new.sp, image, congrArg Proc.pagetable proc,
        (congrArg Proc.trapframe proc).trans done.found, ?_, built.stack, by omega,
        by rw [done.frame]; exact startFrame_sp _ small,
        by rw [done.frame]; exact startFrame_a1 _ small⟩
      intro va base top
      apply done.userByte last running.slot positive bound
      · rw [Nat.div_lt_iff_lt_mul (by decide), numPages_mul]
        omega
      · unfold pgSize at *
        omega
  · intro before memory table trapframe sz guard image stack apart loading
    have texts : argv.map (textAt before) = argv.map (textAt kernel.memory) := by
      apply List.map_congr_left
      intro arg member
      rw [textAt, textAt, (apart arg member).1]
    have short' : ∀ arg ∈ argv, (textAt before arg).length < pgSize := by
      intro arg member
      rw [textAt, (apart arg member).1]
      exact short arg member
    constructor
    · apply wp_mono (pushStack_spec placed stack argv (fun arg member => (apart arg member).2)
        short' few loading)
      rintro result after ⟨image', loaded, kept, fits, tooBig⟩
      refine ⟨image', loaded, kept, ?_⟩
      rw [texts] at fits tooBig
      cases result with
      | none => exact iff_of_true rfl ((tooBig rfl).resolve_left id)
      | some sp => exact iff_of_false (by simp) (Nat.not_lt.mpr (fits sp rfl).2)
    · intro sp n base top small
      have room := stack.room
      have limit := stack.bound
      have le : n ≤ sp := by omega
      refine ⟨le, sub64_of_le ?_ le⟩
      unfold trapframeVa trampolineVa maxVa at limit
      omega

end Calls

section Small

attribute [local instance] smallImage

theorem smallKernel_running : Running smallKernel 0 :=
  ⟨mem_procSlots.mpr (by decide), by decide +kernel⟩

theorem sysExec_loads_image_small : textProgram.length < 2 ^ 32 ∧
    wp NoPanic (sysExec 0 0 [] (some textProgram)) smallKernel fun ret after => ret ≠ -1 →
      ∃ table trapframe low, (after.proc 0).pagetable = some table ∧
        (after.proc 0).trapframe = some trapframe ∧
        low = pgRoundUp (programEnd (textProgram.take elfhdrSize) textProgram) ∧
        (after.proc 0).sz = low + 2 * pgSize ∧
        (∀ va < low, Accessible after.memory.cell table va ∧
          userByte after.memory.cell table va =
            programImage (textProgram.take elfhdrSize) textProgram va) ∧
        (∃ pte contents, userPageAt after.memory.cell table (low / pgSize) =
          some (pte, contents) ∧ hasFlag pte pteU = false) ∧
        (∀ va, low + pgSize ≤ va → va < low + 2 * pgSize → Accessible after.memory.cell table va) ∧
        Bytes.decode ((after.memory.cell trapframe).read 24 8) =
          field (textProgram.take elfhdrSize) 24 8 := by
  rcases smallKernel_balanced with ⟨boot, balanced⟩
  exact ⟨by decide +kernel, sysExec_loads_image balanced smallKernel_running (by decide)
    (by decide) 0 [] (by decide +kernel)⟩

/-- The page of an argument. -/
def smallArg : Nat := smallKernel.memory.free.headD 0

/-- `sys_exec` has fetched one argument. -/
def smallFetched : Kernel :=
  smallKernel.setMemory
    { free := smallKernel.memory.free.tail
      cell := Function.update smallKernel.memory.cell smallArg
        (Bytes.write (fun _ => 0) 0 [0x68, 0x69, 0]) }

theorem exec_builds_argStack_small :
    (textAt smallFetched.memory smallArg).length < pgSize ∧
    (wp NoPanic (exec 0 [] (some textProgram) [smallArg]) smallFetched fun ret after =>
      (ret ≠ -1 → ret = 1 ∧ ∃ table trapframe sp image,
        (after.proc 0).pagetable = some table ∧ (after.proc 0).trapframe = some trapframe ∧
        (∀ va, (after.proc 0).sz - pgSize ≤ va → va < (after.proc 0).sz →
          Accessible after.memory.cell table va ∧ userByte after.memory.cell table va = image va) ∧
        ArgStack image (after.proc 0).sz sp [textAt smallFetched.memory smallArg] ∧
        sp < (after.proc 0).sz ∧
        Bytes.decode ((after.memory.cell trapframe).read 48 8) = sp ∧
        Bytes.decode ((after.memory.cell trapframe).read 120 8) = sp) ∧
      (pgSize < stackNeed [textAt smallFetched.memory smallArg] → ret = -1)) := by
  rcases smallKernel_balanced with ⟨boot, balanced⟩
  have free : smallKernel.memory.free = smallArg :: smallKernel.memory.free.tail := by
    decide +kernel
  have fetched : Balanced boot smallFetched (([smallArg] : List Nat) + 0) 0 :=
    balanced.gain (Exchange.alloc free _ 0)
  have short : (textAt smallFetched.memory smallArg).length < pgSize := by
    apply textAt_short (show 2 < pgSize by decide)
    rw [smallFetched, setMemory_memory]
    dsimp only
    rw [Function.update_self]
    decide
  refine ⟨short, (exec_builds_argStack fetched ⟨smallKernel_running.slot, ?_⟩ (by decide)
    (by decide) [] (some textProgram) ?_ (by decide)).1⟩
  · exact smallKernel_running.state
  · intro arg member
    rw [List.mem_singleton.mp member]
    exact short

end Small

end Xv6.Kernel
