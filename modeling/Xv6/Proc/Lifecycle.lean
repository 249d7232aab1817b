import Xv6.Proc.Processes

/-! # Contracts of `sbrk`, `wait`, `exit` and `fork` -/

namespace Xv6.Kernel

open StateProg Vm
open Prog (wp_bind wp_mono wp_pure)

variable [KernelImage] {boot owned held : Multiset Nat} {kernel after : Kernel} {p : Nat}

theorem Balanced.updateProc (balanced : Balanced boot kernel owned held) (slot : p ∈ procSlots)
    {proc : Proc}
    (same : procPages kernel.memory.cell proc = procPages kernel.memory.cell (kernel.proc p))
    (ok : ProcOk kernel.memory.cell proc) (ofile : proc.ofile = (kernel.proc p).ofile)
    (state : proc.state = (kernel.proc p).state ∨
      (proc.state = .unused ∨ proc.state = .zombie →
        ∀ fd ∈ fdSlots, (kernel.proc p).ofile fd = none)) :
    Balanced boot (kernel.setProc p proc) owned held :=
  ⟨balanced.world.updateProc slot proc same ok, balanced.refs.updateProc ofile state⟩

def withSize (sz : Nat) (proc : Proc) : Proc := { proc with sz := sz }

theorem Balanced.setSize {pagetable sz : Nat} {memory : Memory}
    (balanced : Balanced boot kernel owned held) (slot : p ∈ procSlots)
    (found : (kernel.proc p).pagetable = some pagetable)
    (change : SpaceChange pagetable kernel.memory memory) (bound : sz ≤ trapframeVa)
    (maps : Maps memory.cell pagetable (· < numPages sz)) :
    Balanced boot ((kernel.setMemory memory).setProc p (withSize sz (kernel.proc p))) owned held :=
  ⟨balanced.world.changeProc slot found change rfl rfl
      (balanced.world.busy_of_pagetable slot found) bound maps,
    (balanced.refs.of_memory memory).updateProc (by rfl) (.inl (by rfl))⟩

theorem growproc_spec (n : Int) (balanced : Balanced boot kernel owned held)
    (running : Running kernel p) :
    wp MayPanic (growproc p n) kernel fun _ after => Balanced boot after owned held := by
  have slot := running.slot
  rcases balanced.pagetable running with ⟨pagetable, found⟩
  have ok := balanced.world.procOk slot
  rcases ok.space pagetable found with ⟨trapframe, _, space⟩
  have proper := balanced.world.properSpace slot found
  have maps := ok.maps pagetable found
  unfold growproc
  apply wp_bind.mpr
  apply wp_get.mpr
  apply wp_bind.mpr
  apply wp_pagetableOf found
  split
  · apply wp_bind.mpr
    apply onMemory_spec
    apply wp_mono (uvmalloc_spec (by decide) ok.size proper.mayPanic space.wellFormed maps)
    rintro sz memory ⟨change, bound, _, maps'⟩
    split
    · rename_i zero
      rw [if_pos zero] at maps'
      exact wp_pure.mpr (balanced.changeSpace slot found change maps')
    · rename_i nonzero
      rw [if_neg nonzero] at maps'
      apply wp_bind.mpr
      apply wp_modifyProc.mpr
      exact wp_pure.mpr (balanced.setSize slot found change bound maps')
  · split
    · apply wp_bind.mpr
      apply onMemory_spec
      apply wp_mono (uvmdealloc_spec ok.size proper.mayPanic space.wellFormed maps)
      rintro sz memory ⟨change, bound, maps', _⟩
      apply wp_bind.mpr
      apply wp_modifyProc.mpr
      exact wp_pure.mpr (balanced.setSize slot found change bound maps')
    · exact wp_pure.mpr balanced

theorem wait_spec (addr : Nat) (balanced : Balanced boot kernel owned held)
    (running : Running kernel p) :
    wp MayPanic (wait p addr) kernel fun _ after => Balanced boot after owned held := by
  unfold wait
  apply wp_bind.mpr
  apply wp_get.mpr
  cases found : (List.range nproc).find? fun q =>
      (kernel.proc q).parent == some p && (kernel.proc q).state == .zombie with
  | none => exact wp_pure.mpr balanced
  | some q =>
    have slot : q ∈ procSlots :=
      mem_procSlots.mpr (List.mem_range.mp (List.mem_of_find?_eq_some found))
    have zombie : (kernel.proc q).state = .zombie := by
      have state := List.find?_some found
      simp only [Bool.and_eq_true, beq_iff_eq] at state
      exact state.2
    have empty := balanced.refs.closed q slot (.inr zombie)
    simp only
    split
    · simp only [if_true, wp_bind, wp_pure]
      apply wp_mono (freeproc_spec balanced slot empty)
      exact fun _ after freed => freed.1
    · rcases balanced.pagetable running with ⟨pagetable, found⟩
      apply wp_bind.mpr
      apply wp_pagetableOf found
      apply wp_bind.mpr
      apply wp_mono (balanced.copyout running.slot found _ _)
      rintro copied _ ⟨balanced', memory, rfl⟩
      cases copied with
      | false => exact wp_pure.mpr balanced'
      | true =>
        simp only [if_true, wp_bind, wp_pure]
        apply wp_mono (freeproc_spec balanced' slot empty)
        exact fun _ after freed => freed.1

/-! ## `exit` -/

/-- The loop of `exit` has closed the descriptors before `fd`. -/
structure Closing (boot owned held : Multiset Nat) (kernel : Kernel) (p fd : Nat) : Prop where
  balanced : Balanced boot kernel owned held
  running : Running kernel p
  closed : ∀ other < fd, (kernel.proc p).ofile other = none

theorem Closing.step {fd : Nat} (closing : Closing boot owned held kernel p fd)
    (inside : fd ∈ fdSlots) :
    wp MayPanic (ifSome ((kernel.proc p).ofile fd) fun f => do
        fileclose f
        clearFd p fd) kernel fun _ after => Closing boot owned held after p (fd + 1) := by
  have balanced := closing.balanced
  have slot := closing.running.slot
  cases found : (kernel.proc p).ofile fd with
  | none =>
    refine wp_pure.mpr ⟨balanced, closing.running, ?_⟩
    intro other bound
    rcases Nat.lt_succ_iff_lt_or_eq.mp bound with before | rfl
    · exact closing.closed other before
    · exact found
  | some f =>
    apply wp_bind.mpr
    apply wp_mono (fileclose_spec f balanced.world)
    rintro _ middle ⟨world, dropped⟩
    apply wp_clearFd.mpr
    -- as if the descriptor had been cleared first
    have cleared := balanced.clear slot inside found
    have dropped' : Dropped f (kernel.setProc p (setFd (kernel.proc p) fd none))
        (middle.setProc p (setFd (middle.proc p) fd none)) := by
      refine ⟨?_, dropped.initproc, dropped.positive, dropped.ref, dropped.others⟩
      rw [setProc, setProc, dropped.proc]
    have ok := world.procOk slot
    have running : Running (middle.setProc p (setFd (middle.proc p) fd none)) p := by
      refine ⟨slot, ?_⟩
      rw [setProc_proc_self, dropped.proc]
      exact closing.running.state
    refine ⟨⟨?_, cleared.refs.drop dropped'⟩, running, ?_⟩
    · exact world.updateProc slot _ (by rfl) ⟨ok.unused, ok.live, ok.space, ok.size, ok.maps⟩
    · intro other bound
      rw [setProc_proc_self]
      by_cases same : other = fd
      · rw [same, setFd_ofile_self]
      · rw [setFd_ofile_of_ne same, dropped.proc]
        exact closing.closed other (by omega)

theorem closeFiles_spec (count : Nat) (closing : Closing boot owned held kernel p fd)
    (bound : fd + count = nofile) :
    wp MayPanic (closeFiles p count fd) kernel fun _ after =>
      Closing boot owned held after p nofile := by
  induction count generalizing fd kernel with
  | zero =>
    rw [Nat.add_zero] at bound
    exact wp_pure.mpr (bound ▸ closing)
  | succ count induction =>
    have inside : fd ∈ fdSlots := mem_fdSlots.mpr (by omega)
    unfold closeFiles
    apply wp_bind.mpr
    apply wp_get.mpr
    apply wp_bind.mpr
    apply wp_mono (closing.step inside)
    exact fun _ middle next => induction next (by omega)

theorem Closing.reparent (closing : Closing boot owned held kernel p fd) :
    wp MayPanic (reparent p) kernel fun _ after => Closing boot owned held after p fd := by
  apply wp_modify.mpr
  generalize changed : ({ kernel with
    proc := fun q =>
      if (kernel.proc q).parent = some p then { kernel.proc q with parent := kernel.initproc }
      else kernel.proc q } : Kernel) = after
  have same : ∀ q, (after.proc q).state = (kernel.proc q).state ∧
      (after.proc q).trapframe = (kernel.proc q).trapframe ∧
      (after.proc q).pagetable = (kernel.proc q).pagetable ∧
      (after.proc q).sz = (kernel.proc q).sz ∧ (after.proc q).ofile = (kernel.proc q).ofile := by
    intro q
    rw [← changed]
    simp only
    split <;> exact ⟨rfl, rfl, rfl, rfl, rfl⟩
  have file : after.file = kernel.file := by rw [← changed]
  have memory : after.memory = kernel.memory := by rw [← changed]
  have pipe : after.pipe = kernel.pipe := by rw [← changed]
  refine ⟨⟨?_, ?_⟩, ⟨closing.running.slot, (same p).1.trans closing.running.state⟩, ?_⟩
  · apply closing.balanced.world.of_same memory
    · exact fun q _ => ⟨(same q).1, (same q).2.1, (same q).2.2.1, (same q).2.2.2.1⟩
    · rw [file]
    · rw [file, pipe]
      exact closing.balanced.world.files
  · refine closing.balanced.refs.of_same (by simp [file]) ?_
    exact fun q _ => ⟨(same q).2.2.2.2, .inl (same q).1⟩
  · rw [(same p).2.2.2.2]
    exact closing.closed

def ended (status : Int) (proc : Proc) : Proc := { proc with xstate := status, state := .zombie }

theorem Closing.finish (closing : Closing boot owned held kernel p nofile) (status : Int) :
    Balanced boot (kernel.setProc p (ended status (kernel.proc p))) owned held := by
  have slot := closing.running.slot
  have ok := closing.balanced.world.procOk slot
  apply closing.balanced.updateProc slot (by rfl) _ (by rfl)
  · exact .inr fun _ fd inside => closing.closed fd (mem_fdSlots.mp inside)
  · exact ⟨by simp [ended], fun _ => ok.live (.inl closing.running.state), ok.space, ok.size,
      ok.maps⟩

theorem exit_spec (status : Int) (balanced : Balanced boot kernel owned held)
    (running : Running kernel p) :
    wp MayPanic (exit p status) kernel fun _ after => Balanced boot after owned held := by
  unfold exit
  apply wp_bind.mpr
  apply wp_get.mpr
  split
  · exact halts (by decide)
  · apply wp_bind.mpr
    apply wp_mono (closeFiles_spec nofile ⟨balanced, running, by simp⟩ (Nat.zero_add _))
    intro _ closed closing
    apply wp_bind.mpr
    apply wp_mono closing.reparent
    intro _ after closing
    apply wp_modifyProc.mpr
    exact closing.finish status

/-! ## `fork` -/

/-- `fork` is filling the slot `np`, whose descriptors from `fd` on are not set. -/
structure Forking (boot owned held : Multiset Nat) (kernel : Kernel) (np fd : Nat) : Prop where
  balanced : Balanced boot kernel owned held
  slot : np ∈ procSlots
  state : (kernel.proc np).state = .used
  pagetable : (kernel.proc np).pagetable ≠ none
  unset : ∀ other ∈ fdSlots, fd ≤ other → (kernel.proc np).ofile other = none

theorem Forking.step {np fd : Nat} (forking : Forking boot owned held kernel np fd)
    (inside : fd ∈ fdSlots) (file : Option Nat) :
    wp MayPanic (ifSome file fun f => do
        let f ← filedup f
        modifyProc np fun proc => setFd proc fd (some f)) kernel fun _ after =>
      Forking boot owned held after np (fd + 1) := by
  cases file with
  | none =>
    refine wp_pure.mpr ⟨forking.balanced, forking.slot, forking.state, forking.pagetable, ?_⟩
    exact fun other member bound => forking.unset other member (by omega)
  | some f =>
    apply wp_bind.mpr
    apply wp_mono (filedup_spec f forking.balanced.world)
    rintro _ _ ⟨rfl, world, rfl⟩
    apply wp_modifyProc.mpr
    have counted : Balanced boot _ owned (_ ::ₘ held) := ⟨world, forking.balanced.refs.gain rfl⟩
    refine ⟨counted.install forking.slot inside (forking.unset fd inside le_rfl)
      (.inr forking.state), forking.slot, ?_, ?_, ?_⟩
    · rw [setProc_proc_self]
      exact forking.state
    · rw [setProc_proc_self]
      exact forking.pagetable
    · intro other member bound
      rw [setProc_proc_self, setFd_ofile_of_ne (by omega)]
      exact forking.unset other member (by omega)

variable {np : Nat}

theorem dupFiles_spec (p count : Nat) (forking : Forking boot owned held kernel np fd)
    (bound : fd + count = nofile) :
    wp MayPanic (dupFiles p np count fd) kernel fun _ after =>
      Forking boot owned held after np nofile := by
  induction count generalizing fd kernel with
  | zero =>
    rw [Nat.add_zero] at bound
    exact wp_pure.mpr (bound ▸ forking)
  | succ count induction =>
    have inside : fd ∈ fdSlots := mem_fdSlots.mpr (by omega)
    unfold dupFiles
    apply wp_bind.mpr
    apply wp_get.mpr
    apply wp_bind.mpr
    apply wp_mono (forking.step inside _)
    exact fun _ middle next => induction next (by omega)

theorem Balanced.proper_copy (balanced : Balanced boot kernel owned held) (slot : p ∈ procSlots)
    (slot' : np ∈ procSlots) (different : p ≠ np) (found : (kernel.proc p).pagetable = some old)
    (found' : (kernel.proc np).pagetable = some new) :
    Proper kernel.memory (space kernel.memory.cell new + space kernel.memory.cell old) := by
  have taken := (balanced.world.take slot' (Finset.notMem_empty np)).take slot
    (by simpa using different)
  have proper := taken.proper.left
  have swap (frame old frame' new rest : Multiset Nat) :
      frame + old + (frame' + new + rest) = (new + old) + (frame + frame' + rest) := by
    abel
  rw [procPages, procPages, found, found', Option.elim_some, Option.elim_some, swap] at proper
  exact proper.left

def withParent (sz p : Nat) (proc : Proc) : Proc := { proc with sz := sz, parent := some p }

theorem Forking.copyTrapframe (forking : Forking boot owned held kernel np 0)
    (found : (kernel.proc np).trapframe = some target) :
    wp MayPanic (onMemory (copyTrapframe source target)) kernel fun _ after =>
      Forking boot owned held after np 0 := by
  apply onMemory_spec
  simp only [Kernel.copyTrapframe, readPage, writePage, wp_bind, wp_get, wp_pure, wp_modify]
  refine ⟨⟨?_, forking.balanced.refs.of_memory _⟩, forking.slot, forking.state,
    forking.pagetable, forking.unset⟩
  apply forking.balanced.world.storeTrapframe forking.slot found (by rfl)
  intro page different
  exact (Function.update_of_ne different _ _).trans (Function.update_of_ne different _ _)

def runnable (name : List UInt8) (proc : Proc) : Proc :=
  { proc with name := safestrcpy name, state := .runnable }

theorem Forking.finish {np fd : Nat} (forking : Forking boot owned held kernel np fd)
    (name : List UInt8) :
    Balanced boot (kernel.setProc np (runnable name (kernel.proc np))) owned held := by
  have ok := forking.balanced.world.procOk forking.slot
  apply forking.balanced.updateProc forking.slot (by rfl) _ (by rfl) (.inr (by simp [runnable]))
  exact ⟨by simp [runnable], fun _ => forking.pagetable, ok.space, ok.size, ok.maps⟩

theorem fork_spec (balanced : Balanced boot kernel owned held) (running : Running kernel p) :
    wp MayPanic (fork p) kernel fun _ after => Balanced boot after owned held := by
  unfold fork
  apply wp_bind.mpr
  apply wp_mono (allocproc_spec balanced)
  intro result first holds
  cases result with
  | none => exact wp_pure.mpr holds
  | some np =>
    rcases holds with ⟨slot, unused, allocated⟩
    have different : p ≠ np := by
      rintro rfl
      rw [running.state] at unused
      cases unused
    have parent := allocated.changed.others p different
    have running' : Running first p := ⟨running.slot, by rw [parent]; exact running.state⟩
    have empty : ∀ fd ∈ fdSlots, (first.proc np).ofile fd = none := by
      rw [allocated.changed.ofile]
      exact balanced.refs.closed np slot (.inl unused)
    rcases allocated.balanced.pagetable running' with ⟨old, foundOld⟩
    rcases Option.ne_none_iff_exists'.mp allocated.pagetable with ⟨new, foundNew⟩
    have okOld := allocated.balanced.world.procOk running.slot
    have okNew := allocated.balanced.world.procOk slot
    rcases okOld.space old foundOld with ⟨source, foundSource, spaceOld⟩
    rcases okNew.space new foundNew with ⟨target, foundTarget, spaceNew⟩
    have mapsNew := okNew.maps new foundNew
    rw [allocated.size] at mapsNew
    apply wp_bind.mpr
    apply wp_pagetableOf foundOld
    apply wp_bind.mpr
    apply wp_pagetableOf foundNew
    apply wp_bind.mpr
    apply wp_get.mpr
    apply wp_bind.mpr
    apply onMemory_spec
    apply wp_mono (uvmcopy_spec okOld.size
      (allocated.balanced.proper_copy running.slot slot different foundOld foundNew).mayPanic
      spaceOld.wellFormed spaceNew.wellFormed (okOld.maps old foundOld) mapsNew)
    rintro copied memory ⟨change, maps⟩
    cases copied with
    | false =>
      have none : Maps memory.cell new (· < numPages (first.proc np).sz) := by
        rw [allocated.size]
        exact maps
      have balanced' := allocated.balanced.changeSpace slot foundNew change none
      apply wp_bind.mpr
      apply wp_mono (freeproc_spec balanced' slot empty)
      exact fun _ after freed => wp_pure.mpr freed.1
    | true =>
      have forking : Forking boot owned held ((first.setMemory memory).setProc np
          (withParent (first.proc p).sz p (first.proc np))) np 0 := by
        refine ⟨⟨?_, ?_⟩, slot, ?_, ?_, ?_⟩
        · exact allocated.balanced.world.changeProc slot foundNew change rfl rfl
            (allocated.balanced.world.busy_of_pagetable slot foundNew) okOld.size maps
        · exact (allocated.balanced.refs.of_memory memory).updateProc (by rfl) (.inl (by rfl))
        all_goals rw [setProc_proc_self]
        · exact allocated.state
        · exact allocated.pagetable
        · exact fun other member _ => empty other member
      have source' : (((first.setMemory memory).setProc np
          (withParent (first.proc p).sz p (first.proc np))).proc p).trapframe = some source := by
        rw [setProc_proc_of_ne different]
        exact foundSource
      have target' : (((first.setMemory memory).setProc np
          (withParent (first.proc p).sz p (first.proc np))).proc np).trapframe = some target := by
        rw [setProc_proc_self]
        exact foundTarget
      apply wp_bind.mpr
      apply wp_modifyProc.mpr
      apply wp_bind.mpr
      apply wp_trapframeOf source'
      apply wp_bind.mpr
      apply wp_trapframeOf target'
      apply wp_bind.mpr
      apply wp_mono (forking.copyTrapframe target')
      intro _ second forking₁
      apply wp_bind.mpr
      apply wp_mono (dupFiles_spec p nofile forking₁ (Nat.zero_add _))
      intro _ third forking₂
      apply wp_bind.mpr
      apply wp_get.mpr
      apply wp_bind.mpr
      apply wp_modifyProc.mpr
      exact wp_pure.mpr (forking₂.finish _)

end Xv6.Kernel
