import Xv6.Proc.Descriptors

/-! # Contracts of the system calls on files -/

namespace Xv6.Kernel

open StateProg Vm
open Prog (wp_bind wp_mono wp_pure)
open Function (update update_self update_of_ne)

/-- A process that can make a system call. -/
structure Running (kernel : Kernel) (p : Nat) : Prop where
  slot : p ∈ procSlots
  state : (kernel.proc p).state = .runnable

variable [KernelImage] {boot owned held : Multiset Nat} {kernel after : Kernel} {p : Nat}

section

variable (balanced : Balanced boot kernel owned held)

include balanced

theorem Balanced.pagetable (running : Running kernel p) :
    ∃ pagetable, (kernel.proc p).pagetable = some pagetable :=
  Option.ne_none_iff_exists'.mp ((balanced.world.procOk running.slot).live (.inl running.state))

theorem Balanced.changeSpace {pagetable : Nat} {memory : Memory} (slot : p ∈ procSlots)
    (found : (kernel.proc p).pagetable = some pagetable)
    (change : SpaceChange pagetable kernel.memory memory)
    (maps : Maps memory.cell pagetable (· < numPages (kernel.proc p).sz)) :
    Balanced boot (kernel.setMemory memory) owned held :=
  ⟨balanced.world.changeSpace slot found change maps, balanced.refs.of_memory memory⟩

theorem Balanced.copyout {pagetable : Nat} (slot : p ∈ procSlots)
    (found : (kernel.proc p).pagetable = some pagetable) (dstva : Nat) (src : List UInt8) :
    wp MayPanic (onMemory (Vm.copyout pagetable dstva src)) kernel fun _ after =>
      Balanced boot after owned held ∧ ∃ memory, after = kernel.setMemory memory := by
  have ok := balanced.world.procOk slot
  rcases ok.space pagetable found with ⟨trapframe, _, space⟩
  apply onMemory_spec
  apply wp_mono (copyout_spec dstva src (balanced.world.properSpace slot found) space)
  intro _ memory change
  exact ⟨balanced.changeSpace slot found change.toSpaceChange
    (change.maps _ (ok.maps pagetable found)), memory, rfl⟩

omit balanced in
theorem sysClose_spec (fd : Int) (balanced : Balanced boot kernel owned held)
    (running : Running kernel p) :
    wp MayPanic (sysClose p fd) kernel fun _ after => Balanced boot after owned held := by
  simp only [sysClose, wp_bind]
  apply wp_mono (argfd_spec p fd kernel)
  rintro result after ⟨rfl, found⟩
  cases result with
  | none => exact wp_pure.mpr balanced
  | some f =>
    rcases found f rfl with ⟨inside, named⟩
    simp only [wp_bind, wp_clearFd, wp_pure]
    apply wp_mono (balanced.clear running.slot inside named).fileclose
    exact fun _ after closed => closed.1

omit balanced in
theorem sysDup_spec (fd : Int) (balanced : Balanced boot kernel owned held)
    (running : Running kernel p) :
    wp MayPanic (sysDup p fd) kernel fun _ after => Balanced boot after owned held := by
  simp only [sysDup, wp_bind]
  apply wp_mono (argfd_spec p fd kernel)
  rintro result after ⟨rfl, _⟩
  cases result with
  | none => exact wp_pure.mpr balanced
  | some f =>
    simp only [wp_bind]
    apply wp_mono (fdalloc_spec p f after)
    intro result installed holds
    cases result with
    | none =>
      subst holds
      exact wp_pure.mpr balanced
    | some fd =>
      rcases holds with ⟨inside, free, rfl⟩
      -- the descriptor is stored before the reference is counted
      have ok := balanced.world.procOk running.slot
      have world := balanced.world.updateProc running.slot (setFd _ fd (some f)) rfl
        ⟨ok.unused, ok.live, ok.space, ok.size, ok.maps⟩
      simp only [wp_bind, wp_pure]
      apply wp_mono (filedup_spec f world)
      rintro _ last ⟨_, world', rfl⟩
      have counted : Balanced boot
          (after.setFiles (setRef after.file f ((after.file f).ref + 1))) owned
          (f ::ₘ held) := ⟨balanced.world.setRef f _ (by simp), balanced.refs.gain rfl⟩
      exact counted.install running.slot inside free (.inl running.state)

theorem Balanced.setType {file : File} (type : (kernel.file f).type ≠ .pipe)
    (type' : file.type ≠ .pipe) (ref : file.ref = (kernel.file f).ref)
    (positive : (kernel.file f).ref ≠ 0) :
    Balanced boot (kernel.setFiles (update kernel.file f file)) owned held := by
  have refs : ∀ g, (update kernel.file f file g).ref = (kernel.file g).ref := by
    intro g
    by_cases equal : g = f
    · rw [equal, update_self, ref]
    · rw [update_of_ne equal]
  have changed : ∀ g, update kernel.file f file g = kernel.file g ∨
      (kernel.file g).type ≠ .pipe ∧ (update kernel.file f file g).type ≠ .pipe := by
    intro g
    by_cases equal : g = f
    · rw [equal, update_self]
      exact .inr ⟨type, type'⟩
    · exact .inl (update_of_ne equal _ _)
  have closed : ∀ g, (update kernel.file f file g).ref = 0 →
      (update kernel.file f file g).type = .none := by
    intro g zero
    rw [refs] at zero
    have different : g ≠ f := by
      rintro rfl
      exact positive zero
    rw [update_of_ne different]
    exact balanced.world.files.closed g zero
  rcases balanced.world.files.of_notPipe changed closed with ⟨ok, pipes⟩
  exact ⟨balanced.world.of_same rfl (fun _ _ => ⟨rfl, rfl, rfl, rfl⟩) pipes ok,
    balanced.refs.of_same refs fun _ _ => ⟨rfl, .inl rfl⟩⟩

omit balanced in
theorem sysOpen_spec (device readable writable : Bool)
    (balanced : Balanced boot kernel owned held) (running : Running kernel p) :
    wp MayPanic (sysOpen p device readable writable) kernel fun _ after =>
      Balanced boot after owned held := by
  simp only [sysOpen, wp_bind]
  apply wp_mono balanced.filealloc
  intro result first holds
  cases result with
  | none =>
    subst holds
    exact wp_pure.mpr balanced
  | some f =>
    rcases holds with ⟨_, free, allocated, equal⟩
    simp only [wp_bind]
    apply wp_mono (fdalloc_spec p f first)
    intro result installed holds
    cases result with
    | none =>
      subst holds
      simp only [wp_bind, wp_pure]
      apply wp_mono allocated.fileclose
      exact fun _ after closed => closed.1
    | some fd =>
      rcases holds with ⟨inside, unused, rfl⟩
      simp only [wp_bind, wp_modifyFile, wp_pure]
      have type : (first.file f).type = .none := by
        rw [equal]
        exact (setRef_same _ _ _ f).1.trans (balanced.world.files.closed f free)
      have ref : (first.file f).ref = 1 := by
        rw [equal]
        exact setRef_self _ _ _
      have state : (first.proc p).state = .runnable := by
        rw [equal]
        exact running.state
      have stored := allocated.install running.slot inside unused (.inl state)
      refine stored.setType (by simp [type]) ?_ rfl (by simp [ref])
      cases device <;> simp

theorem Balanced.undoPipe {post : Kernel → Prop} (slot : p ∈ procSlots) (inside : fd0 ∈ fdSlots)
    (inside' : fd1 ∈ fdSlots) (different : fd0 ≠ fd1) (named : (kernel.proc p).ofile fd0 = some rf)
    (named' : (kernel.proc p).ofile fd1 = some wf)
    (holds : ∀ after, Balanced boot after owned held → post after) :
    wp MayPanic (clearFd p fd0) kernel fun _ first =>
      wp MayPanic (clearFd p fd1) first fun _ second =>
        wp MayPanic (Kernel.fileclose rf) second fun _ third =>
          wp MayPanic (Kernel.fileclose wf) third fun _ after => post after := by
  simp only [wp_clearFd]
  have cleared := (balanced.clear slot inside named).clear (f := wf) slot inside' (by
    rw [setProc_proc_self, setFd_ofile_of_ne different.symm]
    exact named')
  rw [Multiset.cons_swap] at cleared
  exact cleared.fileclose_two fun after closed _ => holds after closed

end

theorem sysPipe_spec (fdarray : Nat) (balanced : Balanced boot kernel owned held)
    (running : Running kernel p) :
    wp MayPanic (sysPipe p fdarray) kernel fun _ after => Balanced boot after owned held := by
  simp only [sysPipe, wp_bind]
  apply wp_mono (pipealloc_spec balanced)
  rintro result first ⟨same, holds⟩
  have slot := running.slot
  have state : (first.proc p).state = .runnable := by
    rw [same.proc]
    exact running.state
  cases result with
  | none => exact wp_pure.mpr holds
  | some ends =>
    rcases ends with ⟨rf, wf⟩
    simp only [wp_bind]
    apply wp_mono (fdalloc_spec p rf first)
    intro result second stored
    cases result with
    | none =>
      subst stored
      simp only [wp_bind, wp_pure]
      exact holds.fileclose_two fun _ closed _ => closed
    | some fd0 =>
      rcases stored with ⟨inside, unused, equal⟩
      have balanced₁ := holds.install slot inside unused (.inl state)
      rw [← equal] at balanced₁
      have proc : second.proc p = setFd (first.proc p) fd0 (some rf) := by
        rw [equal, setProc_proc_self]
      have named : (second.proc p).ofile fd0 = some rf := by
        rw [proc, setFd_ofile_self]
      simp only [wp_bind]
      apply wp_mono (fdalloc_spec p wf second)
      intro result third stored
      cases result with
      | none =>
        subst stored
        simp only [wp_bind, wp_clearFd, wp_pure]
        exact (balanced₁.clear slot inside named).fileclose_two fun _ closed _ => closed
      | some fd1 =>
        rcases stored with ⟨inside', unused', equal'⟩
        have state' : (second.proc p).state = .runnable := by
          rw [proc]
          exact state
        have balanced₂ := balanced₁.install slot inside' unused' (.inl state')
        rw [← equal'] at balanced₂
        have proc' : third.proc p = setFd (second.proc p) fd1 (some wf) := by
          rw [equal', setProc_proc_self]
        have different : fd0 ≠ fd1 := by
          rintro rfl
          rw [named] at unused'
          cases unused'
        have named₀ : (third.proc p).ofile fd0 = some rf := by
          rw [proc', setFd_ofile_of_ne different, named]
        have named₁ : (third.proc p).ofile fd1 = some wf := by
          rw [proc', setFd_ofile_self]
        rcases balanced₂.pagetable ⟨slot, by rw [proc']; exact state'⟩ with ⟨pagetable, found⟩
        simp only [wp_bind]
        apply wp_pagetableOf found
        apply wp_mono (balanced₂.copyout slot found fdarray (Bytes.encode 4 fd0))
        rintro first _ ⟨balanced₃, memory, rfl⟩
        cases first with
        | false =>
          simp only [Bool.false_eq_true, if_false, wp_bind, wp_pure]
          exact balanced₃.undoPipe slot inside inside' different named₀ named₁
            fun _ closed => closed
        | true =>
          simp only [if_true, wp_bind]
          apply wp_mono (balanced₃.copyout slot found _ _)
          rintro both _ ⟨balanced₄, memory', rfl⟩
          cases both with
          | true => exact wp_pure.mpr balanced₄
          | false =>
            simp only [Bool.false_eq_true, if_false, wp_bind, wp_pure]
            exact balanced₄.undoPipe slot inside inside' different named₀ named₁
              fun _ closed => closed

end Xv6.Kernel
