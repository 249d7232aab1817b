import Xv6.Proc.Calls

/-! # Contracts of the functions that make and end processes -/

namespace Xv6.Kernel

open StateProg Vm
open Prog (wp_bind wp_mono wp_pure)

variable [KernelImage] {boot owned held : Multiset Nat} {kernel after : Kernel} {p : Nat}

/-- The page table of a process whose trapframe was freed. -/
structure Detached (boot : Multiset Nat) (kernel : Kernel) (p : Nat) (pagetable : Option Nat)
    (sz : Nat) (owned : Multiset Nat) : Prop where
  world : World boot kernel (insert p ∅) (pagetable.elim 0 (space kernel.memory.cell) + owned)
  shape : ∀ table, pagetable = some table → ∃ trapframe,
    Space kernel.memory.cell table trapframe ∧ Maps kernel.memory.cell table (· < numPages sz)

theorem World.detach (world : World boot kernel ∅ owned) (slot : p ∈ procSlots)
    (free : (kernel.proc p).trapframe = none) :
    Detached boot kernel p (kernel.proc p).pagetable (kernel.proc p).sz owned := by
  have taken := world.take slot (Finset.notMem_empty p)
  rw [procPages, free, Option.elim_none, zero_add] at taken
  refine ⟨taken, ?_⟩
  intro table found
  have ok := world.procOk slot
  rcases ok.space table found with ⟨trapframe, _, space⟩
  exact ⟨trapframe, space, ok.maps table found⟩

theorem World.freeTrapframe (world : World boot kernel ∅ owned) (slot : p ∈ procSlots)
    (found : (kernel.proc p).trapframe = some trapframe) :
    wp MayPanic (onMemory (kfree trapframe)) kernel fun _ after =>
      ∃ memory, after = kernel.setMemory memory ∧
        Detached boot after p (kernel.proc p).pagetable (kernel.proc p).sz owned := by
  have taken := world.take slot (Finset.notMem_empty p)
  rw [procPages, found, Option.elim_some, add_assoc] at taken
  apply onMemory_spec
  apply wp_mono (kfree_spec trapframe kernel.memory)
  rintro _ memory ⟨released, same⟩
  have exchanged := taken.exchange (released _)
  have kept : SameTables kernel.memory.cell memory.cell (kernel.proc p) :=
    fun table held page member => same page
      (world.ne_trapframe slot found held (Multiset.mem_add.mpr (.inl member)))
  have pages : (kernel.proc p).pagetable.elim 0 (space memory.cell) =
      (kernel.proc p).pagetable.elim 0 (space kernel.memory.cell) := by
    cases found : (kernel.proc p).pagetable with
    | none => rw [Option.elim_none, Option.elim_none]
    | some table => rw [Option.elim_some, Option.elim_some, space_congr (kept table found)]
  rw [← pages] at exchanged
  refine ⟨memory, rfl, exchanged, ?_⟩
  intro table held
  have ok := world.procOk slot
  rcases ok.space table held with ⟨trapframe, _, space⟩
  exact ⟨trapframe, space.congr (kept table held), (ok.maps table held).congr (kept table held)⟩

variable {sz : Nat}

theorem Detached.setProc (detached : Detached boot kernel p pagetable sz owned) (proc : Proc) :
    Detached boot (kernel.setProc p proc) p pagetable sz owned :=
  ⟨detached.world.setProc (Finset.mem_insert_self p ∅) proc, detached.shape⟩

theorem Detached.free (detached : Detached boot kernel p (some table) sz owned)
    (bound : sz ≤ trapframeVa) :
    wp MayPanic (onMemory (procFreepagetable table sz)) kernel fun _ after =>
      ∃ memory, after = kernel.setMemory memory ∧ Detached boot after p none sz owned := by
  have world := detached.world
  rw [Option.elim_some] at world
  rcases detached.shape table rfl with ⟨trapframe, shape, maps⟩
  apply onMemory_spec
  apply wp_mono (procFreepagetable_spec bound world.proper.left.left.mayPanic shape maps)
  intro _ memory released
  exact ⟨memory, rfl, world.exchange (released.frame owned), by simp⟩

/-- What `freeproc` leaves in the slot. -/
def freed (proc : Proc) : Proc :=
  { proc with
    pagetable := none
    sz := 0
    pid := 0
    parent := none
    name := []
    xstate := 0
    state := .unused }

/-- Only the record of `p` changed, and its descriptors did not. -/
structure ProcChanged (p : Nat) (before after : Kernel) : Prop where
  file : after.file = before.file
  initproc : after.initproc = before.initproc
  ofile : (after.proc p).ofile = (before.proc p).ofile
  others : ∀ q, q ≠ p → after.proc q = before.proc q

namespace ProcChanged

variable {last : Kernel}

omit [KernelImage] in
theorem trans (first : ProcChanged p kernel after) (second : ProcChanged p after last) :
    ProcChanged p kernel last where
  file := second.file.trans first.file
  initproc := second.initproc.trans first.initproc
  ofile := second.ofile.trans first.ofile
  others := fun q different => (second.others q different).trans (first.others q different)

omit [KernelImage] in
theorem setProc {proc : Proc} (ofile : proc.ofile = (kernel.proc p).ofile) :
    ProcChanged p kernel (kernel.setProc p proc) where
  file := rfl
  initproc := rfl
  ofile := by
    rw [setProc_proc_self]
    exact ofile
  others := fun _ different => setProc_proc_of_ne different kernel proc

omit [KernelImage] in
theorem setMemory (memory : Memory) : ProcChanged p kernel (kernel.setMemory memory) :=
  ⟨rfl, rfl, rfl, fun _ _ => rfl⟩

omit [KernelImage] in
theorem setNextpid (nextpid : Nat) : ProcChanged p kernel { kernel with nextpid := nextpid } :=
  ⟨rfl, rfl, rfl, fun _ _ => rfl⟩

end ProcChanged

theorem Detached.finish {sz : Nat} (detached : Detached boot kernel p none sz owned)
    (slot : p ∈ procSlots)
    (free : (kernel.proc p).trapframe = none) (refs : Refs kernel held)
    (empty : ∀ fd ∈ fdSlots, (kernel.proc p).ofile fd = none) :
    wp MayPanic (modifyProc p freed) kernel fun _ after =>
      Balanced boot after owned held ∧ ProcChanged p kernel after := by
  have none : procPages kernel.memory.cell (freed (kernel.proc p)) = 0 := by
    rw [procPages, freed, free]
    rfl
  have world := detached.world
  rw [Option.elim_none, ← none] at world
  apply wp_modifyProc.mpr
  refine ⟨⟨?_, refs.updateProc rfl (.inr fun _ => empty)⟩, .setProc rfl⟩
  apply world.giveProc slot (Finset.notMem_empty p)
  exact ⟨fun _ => ⟨free, rfl, rfl⟩, by simp [freed], by simp [freed], by simp [freed],
    by simp [freed]⟩

theorem Detached.freePagetable (detached : Detached boot kernel p pagetable sz owned)
    (slot : p ∈ procSlots) (free : (kernel.proc p).trapframe = none) (refs : Refs kernel held)
    (empty : ∀ fd ∈ fdSlots, (kernel.proc p).ofile fd = none) (bound : sz ≤ trapframeVa) :
    wp MayPanic (do
        ifSome pagetable fun pagetable => onMemory (procFreepagetable pagetable sz)
        modifyProc p freed) kernel fun _ after =>
      Balanced boot after owned held ∧ ProcChanged p kernel after := by
  apply wp_bind.mpr
  cases pagetable with
  | none => exact wp_pure.mpr (detached.finish slot free refs empty)
  | some table =>
    apply wp_mono (detached.free bound)
    rintro _ after ⟨memory, rfl, detached'⟩
    apply wp_mono (detached'.finish slot free (refs.of_memory memory) empty)
    rintro _ last ⟨balanced, changed⟩
    exact ⟨balanced, (ProcChanged.setMemory memory).trans changed⟩

def withoutTrapframe (proc : Proc) : Proc := { proc with trapframe := none }

theorem Detached.freeSlot (detached : Detached boot kernel p pagetable sz owned)
    (slot : p ∈ procSlots) (refs : Refs kernel held)
    (empty : ∀ fd ∈ fdSlots, (kernel.proc p).ofile fd = none) (bound : sz ≤ trapframeVa) :
    wp MayPanic (do
        modifyProc p withoutTrapframe
        ifSome pagetable fun pagetable => onMemory (procFreepagetable pagetable sz)
        modifyProc p freed) kernel fun _ after =>
      Balanced boot after owned held ∧ ProcChanged p kernel after := by
  have refs' : Refs (kernel.setProc p (withoutTrapframe (kernel.proc p))) held :=
    refs.updateProc rfl (.inl rfl)
  apply wp_bind.mpr
  apply wp_modifyProc.mpr
  apply wp_mono ((detached.setProc (withoutTrapframe (kernel.proc p))).freePagetable slot
    _ refs' _ bound)
  · rintro _ after ⟨balanced, changed⟩
    exact ⟨balanced, .trans (.setProc (by rfl)) changed⟩
  · rw [setProc_proc_self, withoutTrapframe]
  · rw [setProc_proc_self]
    exact empty

theorem freeproc_spec (balanced : Balanced boot kernel owned held) (slot : p ∈ procSlots)
    (empty : ∀ fd ∈ fdSlots, (kernel.proc p).ofile fd = none) :
    wp MayPanic (freeproc p) kernel fun _ after =>
      Balanced boot after owned held ∧ ProcChanged p kernel after := by
  have size := (balanced.world.procOk slot).size
  unfold freeproc
  apply wp_bind.mpr
  apply wp_get.mpr
  apply wp_bind.mpr
  cases found : (kernel.proc p).trapframe with
  | none =>
    apply wp_pure.mpr
    exact (balanced.world.detach slot found).freeSlot slot balanced.refs empty size
  | some trapframe =>
    apply wp_mono (balanced.world.freeTrapframe slot found)
    rintro _ after ⟨memory, rfl, detached⟩
    apply wp_mono (detached.freeSlot slot (balanced.refs.of_memory memory) empty size)
    rintro _ last ⟨balanced', changed⟩
    exact ⟨balanced', (ProcChanged.setMemory memory).trans changed⟩

/-- What `allocproc` returns, starting from the slot `p`. -/
structure Allocated (boot owned held : Multiset Nat) (p : Nat) (before after : Kernel) : Prop where
  balanced : Balanced boot after owned held
  changed : ProcChanged p before after
  state : (after.proc p).state = .used
  pagetable : (after.proc p).pagetable ≠ none
  size : (after.proc p).sz = 0

theorem Allocated.of_changed (changed : ProcChanged p first kernel)
    (allocated : Allocated boot owned held p kernel after) :
    Allocated boot owned held p first after :=
  ⟨allocated.balanced, changed.trans allocated.changed, allocated.state, allocated.pagetable,
    allocated.size⟩

/-- A slot that `allocproc` is filling. -/
structure Filling (kernel : Kernel) (p : Nat) (trapframe : Option Nat) : Prop where
  slot : p ∈ procSlots
  state : (kernel.proc p).state = .used
  trapframe : (kernel.proc p).trapframe = trapframe
  pagetable : (kernel.proc p).pagetable = none
  size : (kernel.proc p).sz = 0
  empty : ∀ fd ∈ fdSlots, (kernel.proc p).ofile fd = none

theorem Balanced.proper_zero (balanced : Balanced boot kernel owned held) :
    Proper kernel.memory 0 := by
  have proper := balanced.world.proper
  rw [← zero_add (owned + _)] at proper
  exact proper.left

variable {trapframe : Nat}

theorem Balanced.trapframe_lt (balanced : Balanced boot kernel owned held) (slot : p ∈ procSlots)
    (found : (kernel.proc p).trapframe = some trapframe) : trapframe < physTop := by
  have proper := (balanced.world.take slot (Finset.notMem_empty p)).proper
  apply (proper.good trapframe _).2
  rw [procPages, found, Option.elim_some]
  simp only [Multiset.mem_add, Multiset.mem_singleton, true_or, or_true]

theorem Balanced.gain {memory : Memory} {pages : Multiset Nat}
    (balanced : Balanced boot kernel owned held)
    (exchange : Exchange kernel.memory 0 memory pages) :
    Balanced boot (kernel.setMemory memory) (pages + owned) held where
  world := by
    have world := balanced.world
    rw [← zero_add owned] at world
    exact world.exchange (exchange.frame owned)
  refs := balanced.refs.of_memory memory

def withPagetable (pagetable : Option Nat) (proc : Proc) : Proc :=
  { proc with pagetable := pagetable }

theorem Balanced.setPagetable {pagetable : Nat}
    (balanced : Balanced boot kernel (space kernel.memory.cell pagetable + owned) held)
    (filling : Filling kernel p (some trapframe))
    (space : Space kernel.memory.cell pagetable trapframe)
    (maps : Maps kernel.memory.cell pagetable (· < 0)) :
    Balanced boot (kernel.setProc p (withPagetable (some pagetable) (kernel.proc p))) owned
      held where
  world := by
    apply balanced.world.extend filling.slot
    · rw [procPages, procPages, withPagetable, filling.pagetable, Option.elim_none,
        Option.elim_some, add_zero]
    · refine ⟨?_, ?_, ?_, (balanced.world.procOk filling.slot).size, ?_⟩
      · simp [withPagetable, filling.state]
      · simp [withPagetable, filling.state]
      · rintro table ⟨⟩
        exact ⟨trapframe, filling.trapframe, space⟩
      · rintro table ⟨⟩
        simp only [withPagetable, filling.size]
        exact maps
  refs := balanced.refs.updateProc rfl (.inl rfl)

theorem allocPagetable_spec (balanced : Balanced boot kernel owned held)
    (filling : Filling kernel p (some trapframe)) :
    wp MayPanic (do
        let pagetable ← onMemory (procPagetable trapframe)
        modifyProc p (withPagetable pagetable)
        match pagetable with
        | none =>
          freeproc p
          return none
        | some _ => return some p) kernel fun result after =>
      match result with
      | none => Balanced boot after owned held
      | some q => q = p ∧ Allocated boot owned held p kernel after := by
  have bound : trapframe < 2 ^ 56 :=
    (balanced.trapframe_lt filling.slot filling.trapframe).trans (by decide)
  apply wp_bind.mpr
  apply onMemory_spec
  apply wp_mono (procPagetable_spec balanced.proper_zero.mayPanic bound)
  intro result memory holds
  apply wp_bind.mpr
  apply wp_modifyProc.mpr
  cases result with
  | none =>
    have kept := balanced.gain holds
    rw [zero_add] at kept
    have same : withPagetable none (kernel.proc p) = (kernel.setMemory memory).proc p := by
      rw [withPagetable, ← filling.pagetable]
      rfl
    rw [setMemory_proc, same, setProc_eq_self]
    apply wp_bind.mpr
    apply wp_mono (freeproc_spec kept filling.slot filling.empty)
    exact fun _ after freed => wp_pure.mpr freed.1
  | some pagetable =>
    rcases holds with ⟨exchange, space, maps⟩
    have filling' : Filling (kernel.setMemory memory) p (some trapframe) :=
      ⟨filling.slot, filling.state, filling.trapframe, filling.pagetable, filling.size,
        filling.empty⟩
    apply wp_pure.mpr
    refine ⟨rfl, (balanced.gain exchange).setPagetable filling' space maps,
      .trans (.setMemory memory) (.setProc (by rfl)), ?_, ?_, ?_⟩
    · rw [setProc_proc_self]
      exact filling.state
    · rw [setProc_proc_self, withPagetable]
      simp
    · rw [setProc_proc_self]
      exact filling.size

def withTrapframe (trapframe : Option Nat) (proc : Proc) : Proc :=
  { proc with trapframe := trapframe }

theorem Balanced.setTrapframe (balanced : Balanced boot kernel (trapframe ::ₘ owned) held)
    (filling : Filling kernel p none) :
    Balanced boot (kernel.setProc p (withTrapframe (some trapframe) (kernel.proc p))) owned
      held where
  world := by
    have world := balanced.world
    rw [← Multiset.singleton_add] at world
    apply world.extend filling.slot
    · rw [procPages, procPages, withTrapframe, filling.trapframe, filling.pagetable,
        Option.elim_none, Option.elim_none, Option.elim_some]
      simp only [add_zero, zero_add]
    · refine ⟨?_, ?_, ?_, (world.procOk filling.slot).size, ?_⟩
      · simp [withTrapframe, filling.state]
      · simp [withTrapframe, filling.state]
      · simp [withTrapframe, filling.pagetable]
      · simp [withTrapframe, filling.pagetable]
  refs := balanced.refs.updateProc rfl (.inl rfl)

theorem Balanced.setNextpid (balanced : Balanced boot kernel owned held) (nextpid : Nat) :
    Balanced boot { kernel with nextpid := nextpid } owned held :=
  ⟨⟨balanced.world.partition, balanced.world.procs, balanced.world.files⟩,
    ⟨balanced.refs.count, balanced.refs.closed⟩⟩

/-- `allocproc` has found the slot. -/
def started (pid : Nat) (proc : Proc) : Proc := { proc with pid := pid, state := .used }

theorem Balanced.start (balanced : Balanced boot kernel owned held) (slot : p ∈ procSlots)
    (unused : (kernel.proc p).state = .unused) (pid : Nat) :
    Balanced boot (kernel.setProc p (started pid (kernel.proc p))) owned held ∧
      Filling (kernel.setProc p (started pid (kernel.proc p))) p none := by
  have ok := balanced.world.procOk slot
  rcases ok.unused unused with ⟨noTrapframe, noPagetable, noSize⟩
  refine ⟨⟨?_, ?_⟩, slot, ?_, ?_, ?_, ?_, ?_⟩
  · apply balanced.world.updateProc slot (started pid _) (by rfl)
    exact ⟨by simp [started], by simp [started], ok.space, ok.size, ok.maps⟩
  · apply balanced.refs.updateProc (by rfl)
    simp [started]
  · rw [setProc_proc_self, started]
  · rw [setProc_proc_self]
    exact noTrapframe
  · rw [setProc_proc_self]
    exact noPagetable
  · rw [setProc_proc_self]
    exact noSize
  · rw [setProc_proc_self]
    exact balanced.refs.closed p slot (.inl unused)

theorem allocTrapframe_spec (balanced : Balanced boot kernel owned held)
    (filling : Filling kernel p none) :
    wp MayPanic (do
        let trapframe ← onMemory kalloc
        modifyProc p (withTrapframe trapframe)
        match trapframe with
        | none =>
          freeproc p
          return none
        | some trapframe =>
          let pagetable ← onMemory (procPagetable trapframe)
          modifyProc p (withPagetable pagetable)
          match pagetable with
          | none =>
            freeproc p
            return none
          | some _ => return some p) kernel fun result after =>
      match result with
      | none => Balanced boot after owned held
      | some q => q = p ∧ Allocated boot owned held p kernel after := by
  apply wp_bind.mpr
  apply onMemory_spec
  apply wp_mono (kalloc_spec kernel.memory)
  intro result memory allocation
  apply wp_bind.mpr
  apply wp_modifyProc.mpr
  cases result with
  | none =>
    subst allocation
    have same : withTrapframe none (kernel.proc p) = kernel.proc p := by
      rw [withTrapframe, ← filling.trapframe]
    have memory : kernel.setMemory kernel.memory = kernel := rfl
    rw [memory, same, setProc_eq_self]
    apply wp_bind.mpr
    apply wp_mono (freeproc_spec balanced filling.slot filling.empty)
    exact fun _ after freed => wp_pure.mpr freed.1
  | some trapframe =>
    have filling' : Filling (kernel.setMemory memory) p none :=
      ⟨filling.slot, filling.state, filling.trapframe, filling.pagetable, filling.size,
        filling.empty⟩
    have gained := balanced.gain (allocation.exchange 0)
    rw [Multiset.cons_add, zero_add] at gained
    have stored := gained.setTrapframe filling'
    have filling'' : Filling ((kernel.setMemory memory).setProc p
        (withTrapframe (some trapframe) (kernel.proc p))) p (some trapframe) := by
      constructor
      · exact filling.slot
      all_goals rw [setProc_proc_self, withTrapframe]
      · exact filling.state
      · exact filling.pagetable
      · exact filling.size
      · exact filling.empty
    apply wp_mono (allocPagetable_spec stored filling'')
    intro result after holds
    cases result with
    | none => exact holds
    | some q =>
      exact ⟨holds.1, .of_changed (.trans (.setMemory memory) (.setProc (by rfl))) holds.2⟩

theorem allocproc_spec (balanced : Balanced boot kernel owned held) :
    wp MayPanic allocproc kernel fun result after =>
      match result with
      | none => Balanced boot after owned held
      | some p => p ∈ procSlots ∧ (kernel.proc p).state = .unused ∧
          Allocated boot owned held p kernel after := by
  unfold allocproc
  apply wp_bind.mpr
  apply wp_get.mpr
  cases found : (List.range nproc).find? fun p => (kernel.proc p).state == .unused with
  | none => exact wp_pure.mpr balanced
  | some p =>
    have slot : p ∈ procSlots :=
      mem_procSlots.mpr (List.mem_range.mp (List.mem_of_find?_eq_some found))
    have unused : (kernel.proc p).state = .unused := by
      have state := List.find?_some found
      simpa using state
    rcases balanced.start slot unused kernel.nextpid with ⟨balanced', filling⟩
    apply wp_bind.mpr
    apply wp_modifyProc.mpr
    apply wp_bind.mpr
    apply wp_modify.mpr
    have filling' : Filling { kernel.setProc p (started kernel.nextpid (kernel.proc p)) with
        nextpid := kernel.nextpid + 1 } p none :=
      ⟨filling.slot, filling.state, filling.trapframe, filling.pagetable, filling.size,
        filling.empty⟩
    apply wp_mono (allocTrapframe_spec (balanced'.setNextpid _) filling')
    intro result after holds
    cases result with
    | none => exact holds
    | some q =>
      rcases holds with ⟨rfl, allocated⟩
      exact ⟨slot, unused, .of_changed (.trans (.setProc (by rfl)) (.setNextpid _)) allocated⟩

end Xv6.Kernel
