import Xv6.Proc.Files

/-! # References to open files

The reference count of a file is the number of descriptors that name it, and of
references that the running call holds. -/

namespace Xv6.Kernel

open StateProg Vm
open Prog (wp_bind wp_mono wp_pure)
open Function (update update_self update_of_ne)

@[irreducible] def fdSlots : Finset Nat := Finset.range nofile

theorem mem_fdSlots : fd ∈ fdSlots ↔ fd < nofile := by
  rw [fdSlots, Finset.mem_range]

/-- The file that a descriptor names. -/
def fdFile (file : Option Nat) : Multiset Nat := file.elim 0 ({·})

/-- The files that the descriptors of a process name. -/
def procFiles (proc : Proc) : Multiset Nat := ∑ fd ∈ fdSlots, fdFile (proc.ofile fd)

/-- The files that the descriptors of all processes name. -/
def openFiles (proc : Nat → Proc) : Multiset Nat := ∑ p ∈ procSlots, procFiles (proc p)

structure Refs (kernel : Kernel) (held : Multiset Nat) : Prop where
  count : ∀ f, (kernel.file f).ref = (openFiles kernel.proc + held).count f
  /-- A slot that is free or whose process has ended has no descriptors. -/
  closed : ∀ p ∈ procSlots, (kernel.proc p).state = .unused ∨ (kernel.proc p).state = .zombie →
    ∀ fd ∈ fdSlots, (kernel.proc p).ofile fd = none

/-- `p->ofile[fd] = file`. -/
def setFd (proc : Proc) (fd : Nat) (file : Option Nat) : Proc :=
  { proc with ofile := update proc.ofile fd file }

@[simp] theorem setFd_ofile_self (proc : Proc) (fd : Nat) (file : Option Nat) :
    (setFd proc fd file).ofile fd = file :=
  update_self _ _ _

variable {fd : Nat}

theorem setFd_ofile_of_ne (different : other ≠ fd) (proc : Proc) (file : Option Nat) :
    (setFd proc fd file).ofile other = proc.ofile other :=
  update_of_ne different _ _

theorem procFiles_setFd (proc : Proc) (inside : fd ∈ fdSlots) (file : Option Nat) :
    fdFile (proc.ofile fd) + procFiles (setFd proc fd file) = fdFile file + procFiles proc := by
  have change := sum_change (fun fd => fdFile (proc.ofile fd))
    (fun other => fdFile ((setFd proc fd file).ofile other)) inside
    fun other _ different => congrArg fdFile (setFd_ofile_of_ne different proc file)
  rw [setFd_ofile_self] at change
  exact change

variable {p : Nat}

theorem openFiles_update (proc : Nat → Proc) (slot : p ∈ procSlots) (new : Proc) :
    procFiles (proc p) + openFiles (update proc p new) = procFiles new + openFiles proc := by
  have change := sum_change (fun p => procFiles (proc p))
    (fun other => procFiles (update proc p new other)) slot
    fun other _ different => congrArg procFiles (update_of_ne different _ _)
  simp only [update_self] at change
  exact change

theorem openFiles_setFd (proc : Nat → Proc) (slot : p ∈ procSlots) (inside : fd ∈ fdSlots)
    (file : Option Nat) :
    fdFile ((proc p).ofile fd) + openFiles (update proc p (setFd (proc p) fd file)) =
      fdFile file + openFiles proc := by
  apply add_left_cancel (a := procFiles (proc p))
  rw [add_left_comm, openFiles_update proc slot, ← add_assoc, procFiles_setFd _ inside]
  exact (add_assoc _ _ _).trans (add_left_comm _ _ _)

theorem openFiles_congr {proc after : Nat → Proc}
    (same : ∀ p ∈ procSlots, (after p).ofile = (proc p).ofile) :
    openFiles after = openFiles proc := by
  apply Finset.sum_congr rfl
  intro p slot
  rw [procFiles, procFiles, same p slot]

namespace Refs

variable {kernel after : Kernel} {held : Multiset Nat} {f : Nat}

/-- Neither counts nor descriptors changed, and no process with descriptors has
ended. -/
theorem of_same (refs : Refs kernel held) (ref : ∀ f, (after.file f).ref = (kernel.file f).ref)
    (proc : ∀ p ∈ procSlots, (after.proc p).ofile = (kernel.proc p).ofile ∧
      ((after.proc p).state = (kernel.proc p).state ∨
        ((after.proc p).state = .unused ∨ (after.proc p).state = .zombie →
          ∀ fd ∈ fdSlots, (kernel.proc p).ofile fd = none))) :
    Refs after held := by
  constructor
  · intro f
    rw [ref, refs.count, openFiles_congr fun p slot => (proc p slot).1]
  · intro p slot idle
    rw [(proc p slot).1]
    rcases (proc p slot).2 with same | empty
    · exact refs.closed p slot (same ▸ idle)
    · exact empty idle

theorem of_memory (refs : Refs kernel held) (memory : Memory) :
    Refs (kernel.setMemory memory) held :=
  ⟨refs.count, refs.closed⟩

theorem updateProc {proc : Proc} (refs : Refs kernel held)
    (ofile : proc.ofile = (kernel.proc p).ofile)
    (state : proc.state = (kernel.proc p).state ∨
      (proc.state = .unused ∨ proc.state = .zombie →
        ∀ fd ∈ fdSlots, (kernel.proc p).ofile fd = none)) : Refs (kernel.setProc p proc) held := by
  refine refs.of_same (fun _ => rfl) ?_
  intro q _
  by_cases equal : q = p
  · subst q
    rw [setProc_proc_self]
    exact ⟨ofile, state⟩
  · rw [setProc_proc_of_ne equal]
    exact ⟨rfl, .inl rfl⟩

theorem gain (refs : Refs kernel held) (next : ref = (kernel.file f).ref + 1) :
    Refs (kernel.setFiles (setRef kernel.file f ref)) (f ::ₘ held) := by
  refine ⟨?_, refs.closed⟩
  intro g
  rw [Multiset.add_cons, setFiles_file, setFiles_proc]
  by_cases equal : g = f
  · subst g
    rw [setRef_self, next, refs.count, Multiset.count_cons_self]
  · rw [Multiset.count_cons_of_ne equal, ← refs.count g]
    exact congrArg File.ref (setRef_of_ne ref equal)

theorem drop (refs : Refs kernel (f ::ₘ held)) (dropped : Dropped f kernel after) :
    Refs after held := by
  constructor
  · intro g
    have count := refs.count g
    rw [Multiset.add_cons] at count
    rw [dropped.proc]
    by_cases equal : g = f
    · subst g
      rw [Multiset.count_cons_self] at count
      rw [dropped.ref, count, Nat.add_sub_cancel]
    · rw [Multiset.count_cons_of_ne equal] at count
      rw [dropped.others g equal, count]
  · rw [dropped.proc]
    exact refs.closed

/-- A descriptor changes: the call gives up the reference that it stores and
holds the one that was there. -/
theorem setFd {file : Option Nat} (refs : Refs kernel (fdFile file + held)) (slot : p ∈ procSlots)
    (inside : fd ∈ fdSlots)
    (busy : file = none ∨ (kernel.proc p).state ≠ .unused ∧ (kernel.proc p).state ≠ .zombie) :
    Refs (kernel.setProc p (Kernel.setFd (kernel.proc p) fd file))
      (fdFile ((kernel.proc p).ofile fd) + held) := by
  constructor
  · intro f
    have change := openFiles_setFd kernel.proc slot inside file
    rw [setProc_file, refs.count, ← add_assoc, add_comm (openFiles kernel.proc), ← change,
      ← add_assoc, add_comm (openFiles _)]
    rfl
  · intro q slot' idle other inside'
    by_cases equal : q = p
    · subst q
      rw [setProc_proc_self] at idle ⊢
      by_cases same : other = fd
      · subst other
        rw [setFd_ofile_self]
        rcases busy with rfl | busy
        · rfl
        · exact absurd idle (not_or.mpr busy)
      · rw [setFd_ofile_of_ne same]
        exact refs.closed p slot' idle other inside'
    · rw [setProc_proc_of_ne equal] at idle ⊢
      exact refs.closed q slot' idle other inside'

end Refs

theorem argfd_spec (p : Nat) (fd : Int) (kernel : Kernel) :
    wp MayPanic (argfd p fd) kernel fun result after => after = kernel ∧
      ∀ f, result = some f → fd.toNat ∈ fdSlots ∧ (kernel.proc p).ofile fd.toNat = some f := by
  unfold argfd
  split
  · exact wp_pure.mpr ⟨rfl, by simp⟩
  · simp only [wp_bind, wp_get, wp_pure]
    refine ⟨trivial, fun f found => ⟨mem_fdSlots.mpr ?_, found⟩⟩
    omega

theorem fdalloc_spec (p f : Nat) (kernel : Kernel) :
    wp MayPanic (fdalloc p f) kernel fun result after =>
      match result with
      | none => after = kernel
      | some fd => fd ∈ fdSlots ∧ (kernel.proc p).ofile fd = none ∧
          after = kernel.setProc p (setFd (kernel.proc p) fd (some f)) := by
  simp only [fdalloc, wp_bind, wp_get]
  cases found : (List.range nofile).find? fun fd => ((kernel.proc p).ofile fd).isNone with
  | none => exact wp_pure.mpr rfl
  | some fd =>
    simp only [wp_bind, wp_modifyProc, wp_pure]
    have bound := List.mem_range.mp (List.mem_of_find?_eq_some found)
    have free := List.find?_some found
    exact ⟨mem_fdSlots.mpr bound, by simpa using free, rfl⟩

theorem wp_clearFd {post : Unit → Kernel → Prop} :
    wp MayPanic (clearFd p fd) kernel post ↔
      post () (kernel.setProc p (setFd (kernel.proc p) fd none)) := by
  simp only [clearFd, wp_modifyProc, setFd]

variable [KernelImage]

/-- What holds while a call runs that holds the pages `owned` and the references
`held`. -/
structure Balanced (boot : Multiset Nat) (kernel : Kernel) (owned held : Multiset Nat) :
    Prop where
  world : World boot kernel ∅ owned
  refs : Refs kernel held

variable {boot owned held : Multiset Nat} {kernel after : Kernel}

theorem Balanced.setFd (file : Option Nat)
    (balanced : Balanced boot kernel owned (fdFile file + held)) (slot : p ∈ procSlots)
    (inside : fd ∈ fdSlots)
    (busy : file = none ∨ (kernel.proc p).state ≠ .unused ∧ (kernel.proc p).state ≠ .zombie) :
    Balanced boot (kernel.setProc p (Kernel.setFd (kernel.proc p) fd file))
      owned (fdFile ((kernel.proc p).ofile fd) + held) where
  world := by
    have ok := balanced.world.procOk slot
    exact balanced.world.updateProc slot _ rfl ⟨ok.unused, ok.live, ok.space, ok.size, ok.maps⟩
  refs := balanced.refs.setFd slot inside busy

variable {f : Nat}

theorem Balanced.install (balanced : Balanced boot kernel owned (f ::ₘ held)) (slot : p ∈ procSlots)
    (inside : fd ∈ fdSlots) (free : (kernel.proc p).ofile fd = none)
    (busy : (kernel.proc p).state = .runnable ∨ (kernel.proc p).state = .used) :
    Balanced boot (kernel.setProc p (Kernel.setFd (kernel.proc p) fd (some f))) owned held := by
  rw [← Multiset.singleton_add] at balanced
  have stored := balanced.setFd (some f) slot inside (.inr (by
    rcases busy with busy | busy <;> simp [busy]))
  rw [free] at stored
  exact (zero_add held) ▸ stored

theorem Balanced.clear (balanced : Balanced boot kernel owned held) (slot : p ∈ procSlots)
    (inside : fd ∈ fdSlots) (found : (kernel.proc p).ofile fd = some f) :
    Balanced boot (kernel.setProc p (Kernel.setFd (kernel.proc p) fd none)) owned (f ::ₘ held) := by
  rw [← zero_add held] at balanced
  have cleared := balanced.setFd none slot inside (.inl rfl)
  rw [found] at cleared
  exact (Multiset.singleton_add f held) ▸ cleared

theorem Balanced.fileclose (balanced : Balanced boot kernel owned (f ::ₘ held)) :
    wp MayPanic (fileclose f) kernel fun _ after =>
      Balanced boot after owned held ∧ Dropped f kernel after := by
  apply wp_mono (fileclose_spec f balanced.world)
  rintro _ after ⟨world, dropped⟩
  exact ⟨⟨world, balanced.refs.drop dropped⟩, dropped⟩

theorem Balanced.filealloc (balanced : Balanced boot kernel owned held) :
    wp MayPanic filealloc kernel fun result after =>
      match result with
      | none => after = kernel
      | some f => f < nfile ∧ (kernel.file f).ref = 0 ∧ Balanced boot after owned (f ::ₘ held) ∧
          after = kernel.setFiles (setRef kernel.file f 1) := by
  apply wp_mono (filealloc_spec balanced.world)
  intro result after holds
  cases result with
  | none => exact holds
  | some f =>
    rcases holds with ⟨bound, free, world, rfl⟩
    exact ⟨bound, free, ⟨world, balanced.refs.gain (by rw [free])⟩, rfl⟩

/-- The process table is as before. -/
structure SameProcs (before after : Kernel) : Prop where
  proc : after.proc = before.proc
  initproc : after.initproc = before.initproc

omit [KernelImage] in
theorem Dropped.sameProcs (dropped : Dropped f kernel after) : SameProcs kernel after :=
  ⟨dropped.proc, dropped.initproc⟩

omit [KernelImage] in
theorem SameProcs.trans (first : SameProcs kernel after) (second : SameProcs after last) :
    SameProcs kernel last :=
  ⟨second.proc.trans first.proc, second.initproc.trans first.initproc⟩

theorem Balanced.fileclose_two {post : Kernel → Prop}
    (balanced : Balanced boot kernel owned (f ::ₘ g ::ₘ held))
    (holds : ∀ after, Balanced boot after owned held → SameProcs kernel after → post after) :
    wp MayPanic (Kernel.fileclose f) kernel fun _ middle =>
      wp MayPanic (Kernel.fileclose g) middle fun _ after => post after := by
  apply wp_mono balanced.fileclose
  rintro _ middle ⟨balanced', dropped⟩
  apply wp_mono balanced'.fileclose
  rintro _ after ⟨balanced'', dropped'⟩
  exact holds after balanced'' (dropped.sameProcs.trans dropped'.sameProcs)

theorem Balanced.openPipe {rf wf pi : Nat} {file : Nat → File} {memory : Memory}
    (balanced : Balanced boot kernel owned held) (fresh : Fresh pi kernel.memory memory)
    (opened : Opened rf wf pi kernel.file file) (bound : rf < nfile) (bound' : wf < nfile)
    (free : (kernel.file rf).type = .none) (free' : (kernel.file wf).type = .none)
    (positive : (kernel.file rf).ref ≠ 0) (positive' : (kernel.file wf).ref ≠ 0) :
    Balanced boot (((kernel.setMemory memory).setFiles file).setPipes
        (update kernel.pipe pi { readopen := true, writeopen := true }))
      owned held where
  world := by
    have notOpen : pi ∉ openPipes kernel.file := by
      intro member
      apply balanced.world.proper.not_mem_free _ fresh.free
      rw [others]
      exact Multiset.mem_add.mpr (.inr (Multiset.mem_add.mpr (.inr member)))
    have taken := balanced.world.exchange (fresh.exchange owned)
    apply taken.of_pipes _
      (opened.filesOk balanced.world.files bound bound' free free' positive positive' notOpen)
    rw [opened.openPipes bound free free', Finset.insert_val_of_notMem notOpen,
      Multiset.add_cons, Multiset.cons_add, setMemory_file]
  refs := balanced.refs.of_same opened.ref fun _ _ => ⟨rfl, .inl rfl⟩

theorem pipealloc_spec (balanced : Balanced boot kernel owned held) :
    wp MayPanic pipealloc kernel fun result after => SameProcs kernel after ∧
      match result with
      | none => Balanced boot after owned held
      | some (rf, wf) => Balanced boot after owned (rf ::ₘ wf ::ₘ held) := by
  simp only [pipealloc, wp_bind]
  apply wp_mono balanced.filealloc
  intro result first holds
  cases result with
  | none =>
    subst holds
    exact wp_pure.mpr ⟨⟨rfl, rfl⟩, balanced⟩
  | some rf =>
    rcases holds with ⟨bound, free, balanced₁, rfl⟩
    simp only [wp_bind]
    apply wp_mono balanced₁.filealloc
    intro result second holds
    cases result with
    | none =>
      subst holds
      simp only [wp_bind, wp_pure]
      apply wp_mono balanced₁.fileclose
      rintro _ after ⟨closed, dropped⟩
      exact ⟨⟨dropped.proc, dropped.initproc⟩, closed⟩
    | some wf =>
      rcases holds with ⟨bound', free', balanced₂, equal⟩
      simp only [wp_bind]
      apply onMemory_spec
      apply wp_mono (kalloc_spec second.memory)
      intro result memory allocation
      cases result with
      | none =>
        subst allocation equal
        rw [Multiset.cons_swap] at balanced₂
        simp only [wp_bind, wp_pure]
        apply balanced₂.fileclose_two
        exact fun after closed same => ⟨⟨same.proc, same.initproc⟩, closed⟩
      | some pi =>
        simp only [wp_bind, wp_modifyPipe, wp_modifyFile, wp_pure]
        have different : rf ≠ wf := by
          rintro rfl
          rw [setFiles_file, setRef_self] at free'
          exact absurd free' (by decide)
        have type (g : Nat) : (second.file g).type = (kernel.file g).type := by
          rw [equal]
          exact (setRef_same _ _ _ g).1.trans (setRef_same _ _ _ g).1
        have closed := balanced.world.files.closed
        have closed' := balanced₁.world.files.closed
        have positive : (second.file rf).ref = 1 := by
          rw [equal]
          exact (congrArg File.ref (setRef_of_ne 1 different)).trans (setRef_self _ _ _)
        have positive' : (second.file wf).ref = 1 := by
          rw [equal]
          exact setRef_self _ _ _
        have opened := balanced₂.openPipe allocation (opened_update different pi second.file)
          bound bound' ((type rf).trans (closed rf free))
          ((type wf).trans ((setRef_same _ _ _ wf).1.symm.trans (closed' wf free')))
          (by simp [positive]) (by simp [positive'])
        rw [Multiset.cons_swap] at opened
        have proc : second.proc = kernel.proc := by
          rw [equal]
          rfl
        have initproc : second.initproc = kernel.initproc := by
          rw [equal]
          rfl
        exact ⟨⟨proc, initproc⟩, opened⟩

end Xv6.Kernel
