import Xv6.Foundation.Sum
import Xv6.File.Moves

/-! # References to open files

The reference count of a file is the number of references that processes own:
through a descriptor, or while a call runs. -/

namespace Xv6.Files

open Function (update update_self update_of_ne update_apply)

@[irreducible] def procSlots : Finset Nat := Finset.range nproc

@[irreducible] def fdSlots : Finset Nat := Finset.range nofile

theorem mem_procSlots : p ∈ procSlots ↔ p < nproc := by
  rw [procSlots, Finset.mem_range]

theorem mem_fdSlots : fd ∈ fdSlots ↔ fd < nofile := by
  rw [fdSlots, Finset.mem_range]

/-- The references that a call still has to close after a `fileclose`. -/
def Cont.held : Cont → Multiset Nat
  | .fileclose f => {f}
  | .done | .exit _ => 0

/-- The references that a running call holds, other than through a descriptor. -/
def Pc.held : Pc → Multiset Nat
  | .openFile _ f => {f}
  | .pipeFile rf => {rf}
  | .pipeFiles rf wf | .pipePage rf wf _ | .pipeMade rf wf => {rf, wf}
  | .pipeStored _ wf _ => {wf}
  | .forkStore _ _ f => {f}
  -- `exit` closes what its descriptor names
  | .fileclose _ (.exit _) => 0
  | .fileclose f cont => f ::ₘ cont.held
  | .pipeclose _ cont | .kfree _ cont | .iput _ cont => cont.held
  | _ => 0

/-- After the `fileclose` of `exit` its descriptor holds no reference. -/
def Cont.holds : Cont → Nat → Bool
  | .exit closed, fd => fd != closed
  | _, _ => true

/-- Whether a descriptor holds a reference. It does not between the `fdalloc` and
the `filedup` of `sys_dup`, and between the `fileclose` of `exit` and the store
after it. -/
def Pc.holds : Pc → Nat → Bool
  | .dupStored _ stored, fd => fd != stored
  | .pipeclose _ cont, fd | .kfree _ cont, fd | .iput _ cont, fd => cont.holds fd
  | .exitClear closed, fd => fd != closed
  | _, _ => true

/-- The reference that a descriptor holds. -/
def fdFile (file : Option Nat) : Multiset Nat := file.elim 0 ({·})

/-- The references that the descriptors of a process hold. -/
def descriptors (proc : Proc) : Multiset Nat :=
  ∑ fd ∈ fdSlots, if proc.pc.holds fd then fdFile (proc.ofile fd) else 0

/-- All references of a process. -/
def owns (proc : Proc) : Multiset Nat := descriptors proc + proc.pc.held

/-- The sum of something over the processes. -/
def overProcs {Item : Type} (items : Proc → Multiset Item) (proc : Nat → Proc) : Multiset Item :=
  ∑ p ∈ procSlots, items (proc p)

variable {Item : Type}

section

variable (items : Proc → Multiset Item) (proc : Nat → Proc)

include items proc

theorem overProcs_update (slot : p < nproc) (new : Proc) :
    items (proc p) + overProcs items (update proc p new) = items new + overProcs items proc := by
  have change := sum_change (fun p => items (proc p))
    (fun other => items (update proc p new other)) (mem_procSlots.mpr slot)
    fun other _ different => congrArg items (update_of_ne different _ _)
  simp only [update_self] at change
  exact change

theorem le_overProcs (slot : p < nproc) : items (proc p) ≤ overProcs items proc := by
  rw [overProcs, ← Finset.add_sum_erase procSlots _ (mem_procSlots.mpr slot)]
  exact Multiset.le_add_right _ _

theorem add_le_overProcs (slot : p < nproc) (slot' : q < nproc) (different : p ≠ q) :
    items (proc p) + items (proc q) ≤ overProcs items proc := by
  have inside : q ∈ procSlots.erase p :=
    Finset.mem_erase.mpr ⟨different.symm, mem_procSlots.mpr slot'⟩
  rw [overProcs, ← Finset.add_sum_erase procSlots _ (mem_procSlots.mpr slot),
    ← Finset.add_sum_erase (procSlots.erase p) _ inside]
  rw [← add_assoc]
  exact Multiset.le_add_right _ _

end

/-! ## What a process knows -/

/-- `filealloc` has returned the file and nobody has used it yet. -/
structure Fresh (file : File) : Prop where
  type : file.type = .none
  ref : file.ref = 1

/-- `fork` is filling a slot, whose descriptors from `fd` on are not set. -/
structure Embryo (proc : Nat → Proc) (np fd : Nat) : Prop where
  slot : np < nproc
  state : (proc np).state = .used
  unset : ∀ other < nofile, fd ≤ other → (proc np).ofile other = none

/-- The descriptors before `fd` are closed. -/
def Cleared (proc : Proc) (fd : Nat) : Prop := ∀ other < fd, proc.ofile other = none

/-- A descriptor names a file. -/
def Named (proc : Proc) (fd f : Nat) : Prop := fd < nofile ∧ proc.ofile fd = some f

def Cont.Ok (proc : Proc) : Cont → Prop
  | .exit fd => fd < nofile ∧ Cleared proc fd
  | .done | .fileclose _ => True

/-- What holds where a process is. -/
def Pc.Ok (state : State) (proc : Proc) : Pc → Prop
  | .openFile _ f => Fresh (state.file f)
  | .openStored _ f => Fresh (state.file f) ∧ ∃ fd, Named proc fd f
  | .pipeFile rf => Fresh (state.file rf)
  | .pipeFiles rf wf | .pipePage rf wf _ => Fresh (state.file rf) ∧ Fresh (state.file wf)
  | .pipeStored rf _ fd0 => Named proc fd0 rf
  | .pipeCopy rf wf fd0 fd1 => Named proc fd0 rf ∧ Named proc fd1 wf ∧ fd0 ≠ fd1
  | .dupStored f fd => Named proc fd f ∧ ∃ old, old ≠ fd ∧ Named proc old f
  | .fileclose f (.exit fd) => Named proc fd f ∧ Cleared proc fd
  | .pipeclose _ cont | .kfree _ cont | .iput _ cont => cont.Ok proc
  | .forkCopy np => Embryo state.proc np 0
  | .forkDup np fd => Embryo state.proc np fd
  | .forkStore np fd _ => Embryo state.proc np fd ∧ fd < nofile
  | .exitLoop fd => Cleared proc fd
  | .exitClear fd => fd < nofile ∧ Cleared proc fd
  | _ => True

/-- The slot that `fork` is filling. -/
def Pc.child : Pc → Option Nat
  | .forkCopy np | .forkDup np _ | .forkStore np _ _ => some np
  | _ => none

structure Ok (state : State) : Prop where
  refs : ∀ f, (state.file f).ref = (overProcs owns state.proc).count f
  closed : ∀ f, (state.file f).ref = 0 → (state.file f).type = .none
  bounded : ∀ f, (state.file f).ref ≠ 0 → f < nfile
  idle : ∀ p, (state.proc p).state ≠ .alive → (state.proc p).pc = .user
  empty : ∀ p, (state.proc p).state = .unused ∨ (state.proc p).state = .zombie →
    Cleared (state.proc p) nofile
  pcs : ∀ p < nproc, (state.proc p).pc.Ok state (state.proc p)
  children : ∀ p < nproc, ∀ q < nproc, ∀ np, (state.proc p).pc.child = some np →
    (state.proc q).pc.child = some np → p = q

/-! ## References gained and lost -/

/-- The references that an effect counts. -/
def Effect.gains : Effect → Multiset Nat
  | .count f => {f}
  | _ => 0

/-- The references that an effect gives up. -/
def Effect.drops : Effect → Multiset Nat
  | .uncount f | .last f => {f}
  | _ => 0

/-- The reference of one descriptor. -/
def slotRef (proc : Proc) (fd : Nat) : Multiset Nat :=
  if proc.pc.holds fd then fdFile (proc.ofile fd) else 0

theorem descriptors_change {proc proc' : Proc} {fd : Nat} (inside : fd < nofile)
    (same : ∀ other, other ≠ fd → slotRef proc' other = slotRef proc other) :
    slotRef proc fd + descriptors proc' = slotRef proc' fd + descriptors proc :=
  sum_change (slotRef proc) (slotRef proc') (mem_fdSlots.mpr inside)
    fun other _ different => same other different

theorem descriptors_congr {proc proc' : Proc}
    (same : ∀ fd, slotRef proc' fd = slotRef proc fd) : descriptors proc' = descriptors proc :=
  Finset.sum_congr rfl fun fd _ => same fd

variable {fd : Nat}

theorem slotRef_le {proc : Proc} (inside : fd < nofile) : slotRef proc fd ≤ descriptors proc := by
  change slotRef proc fd ≤ ∑ fd ∈ fdSlots, slotRef proc fd
  rw [← Finset.add_sum_erase fdSlots (slotRef proc) (mem_fdSlots.mpr inside)]
  exact Multiset.le_add_right _ _

theorem descriptors_goto {proc : Proc} {pc : Pc} (same : ∀ fd, pc.holds fd = proc.pc.holds fd) :
    descriptors (proc.goto pc) = descriptors proc :=
  descriptors_congr fun fd => by rw [slotRef, slotRef, Proc.goto_pc, same, Proc.goto_ofile]

theorem descriptors_store {proc : Proc} {pc : Pc} {fd : Nat} {file : Option Nat}
    (inside : fd < nofile) (all : ∀ fd, proc.pc.holds fd = true)
    (all' : ∀ fd, pc.holds fd = true) :
    fdFile (proc.ofile fd) + descriptors ((proc.store fd file).goto pc) =
      fdFile file + descriptors proc := by
  have change := @descriptors_change proc ((proc.store fd file).goto pc) fd inside (by
    intro other different
    rw [slotRef, slotRef, Proc.goto_pc, Proc.goto_ofile, all, all',
      Proc.store_ofile_of_ne different])
  rwa [slotRef, slotRef, Proc.goto_pc, Proc.goto_ofile, all, all', Proc.store_ofile_self,
    if_pos rfl, if_pos rfl] at change

theorem descriptors_except {proc : Proc} {pc : Pc} {fd f : Nat} (named : Named proc fd f)
    (all : ∀ fd, proc.pc.holds fd = true) (except : ∀ other, pc.holds other = (other != fd)) :
    {f} + descriptors (proc.goto pc) = descriptors proc := by
  have change := @descriptors_change proc (proc.goto pc) fd named.1 (by
    intro other different
    have holds : (other != fd) = true := bne_iff_ne.mpr different
    rw [slotRef, slotRef, Proc.goto_pc, Proc.goto_ofile, all, except, holds])
  have here : slotRef proc fd = {f} := by
    rw [slotRef, all, if_pos rfl, named.2]
    rfl
  have there : slotRef (proc.goto pc) fd = 0 := by
    rw [slotRef, Proc.goto_pc, except, bne_self_eq_false]
    rfl
  rwa [here, there, zero_add] at change

variable {cont : Cont} {f : Nat}

theorem owns_close {proc : Proc} {pc : Pc} (here : proc.pc = .fileclose f cont)
    (ok : (Pc.fileclose f cont).Ok state proc) (held : pc.held = cont.held)
    (holds : ∀ fd, pc.holds fd = cont.holds fd) : {f} + owns (proc.goto pc) = owns proc := by
  have all : ∀ fd, proc.pc.holds fd = true := by
    rw [here]
    exact fun _ => rfl
  rw [owns, owns, Proc.goto_pc, held, here]
  cases cont with
  | exit fd =>
    rw [← add_assoc, descriptors_except ok.1 all fun other => by rw [holds]; rfl]
    rfl
  | done | fileclose =>
    rw [descriptors_goto fun fd => by rw [holds, all]; rfl]
    exact add_left_comm _ _ _

theorem cont_pc_held (cont : Cont) : cont.pc.held = cont.held := by
  cases cont <;> rfl

theorem cont_pc_holds (cont : Cont) (fd : Nat) : cont.pc.holds fd = cont.holds fd := by
  cases cont <;> rfl

theorem owns_cont {proc : Proc} (held : proc.pc.held = cont.held)
    (holds : ∀ fd, proc.pc.holds fd = cont.holds fd) : owns (proc.goto cont.pc) = owns proc := by
  rw [owns, owns, Proc.goto_pc, cont_pc_held, held,
    descriptors_goto fun fd => (cont_pc_holds cont fd).trans (holds fd).symm]

theorem owns_goto {proc : Proc} {pc : Pc} (held : pc.held = proc.pc.held)
    (holds : ∀ fd, pc.holds fd = proc.pc.holds fd) : owns (proc.goto pc) = owns proc := by
  rw [owns, owns, Proc.goto_pc, held, descriptors_goto holds]

theorem owns_gain {proc : Proc} {pc : Pc} (held : pc.held = f ::ₘ proc.pc.held)
    (holds : ∀ fd, pc.holds fd = proc.pc.holds fd) : owns (proc.goto pc) = {f} + owns proc := by
  rw [owns, owns, Proc.goto_pc, held, descriptors_goto holds, Multiset.add_cons]
  exact (Multiset.singleton_add f _).symm

theorem owns_store {proc : Proc} {pc : Pc} {fd : Nat} {file : Option Nat} (inside : fd < nofile)
    (all : ∀ fd, proc.pc.holds fd = true) (all' : ∀ fd, pc.holds fd = true)
    (held : fdFile file + pc.held = fdFile (proc.ofile fd) + proc.pc.held) :
    owns ((proc.store fd file).goto pc) = owns proc := by
  have stored := @descriptors_store proc pc fd file inside all all'
  apply add_left_cancel (a := fdFile (proc.ofile fd))
  rw [owns, owns, Proc.goto_pc, ← add_assoc, stored, add_right_comm, held]
  exact (add_right_comm _ _ _).trans (add_assoc _ _ _)

theorem owns_dupStored {proc : Proc} (here : proc.pc = .user) (free : proc.ofile fd = none) :
    owns ((proc.store fd (some f)).goto (.dupStored f fd)) = owns proc := by
  have same : descriptors ((proc.store fd (some f)).goto (.dupStored f fd)) =
      descriptors proc := by
    apply descriptors_congr
    intro other
    rw [slotRef, slotRef, here]
    by_cases equal : other = fd
    · subst other
      rw [free]
      simp [Pc.holds, fdFile]
    · simp [Pc.holds, equal, Proc.store_ofile_of_ne equal]
  rw [owns, owns, same, here]
  rfl

theorem owns_exitClear {proc : Proc} (here : proc.pc = .exitClear fd) :
    owns ((proc.store fd none).goto (.exitLoop (fd + 1))) = owns proc := by
  have same : descriptors ((proc.store fd none).goto (.exitLoop (fd + 1))) =
      descriptors proc := by
    apply descriptors_congr
    intro other
    rw [slotRef, slotRef, here]
    by_cases equal : other = fd
    · subst other
      simp [Pc.holds, fdFile]
    · simp [Pc.holds, equal, Proc.store_ofile_of_ne equal]
  rw [owns, owns, same, here]
  rfl

theorem start_quiet {pc : Pc} (start : pc.isStart = true) :
    pc.held = 0 ∧ ∀ fd, pc.holds fd = true := by
  cases pc <;> first | exact ⟨rfl, fun _ => rfl⟩ | cases start

variable {rf wf : Nat}

theorem owns_undoPipe {proc : Proc} (here : proc.pc = .pipeCopy rf wf fd0 fd1)
    (first : Named proc fd0 rf) (second : Named proc fd1 wf) (different : fd0 ≠ fd1) :
    owns (((proc.store fd0 none).store fd1 none).goto (.fileclose rf (.fileclose wf))) =
      owns proc := by
  have all : ∀ fd, proc.pc.holds fd = true := by
    rw [here]
    exact fun _ => rfl
  have one : owns ((proc.store fd0 none).goto (.pipeFile rf)) = owns proc := by
    apply owns_store first.1 all (fun _ => rfl)
    rw [first.2, here]
    exact add_comm (0 : Multiset Nat) {rf}
  have named : ((proc.store fd0 none).goto (.pipeFile rf)).ofile fd1 = some wf := by
    rw [Proc.goto_ofile, Proc.store_ofile_of_ne different.symm]
    exact second.2
  have two := @owns_store ((proc.store fd0 none).goto (.pipeFile rf))
    (.fileclose rf (.fileclose wf)) fd1 none second.1 (fun _ => rfl) (fun _ => rfl) (by
      rw [named]
      exact (zero_add (rf ::ₘ {wf})).trans (Multiset.pair_comm rf wf))
  exact two.trans one

variable {state : State} {p : Nat} {effect : Effect} {proc : Proc}

/-- What a step that touches no other slot does to the references of the process. -/
theorem Moves.owns_self (moves : Moves state p (state.proc p).pc effect none proc)
    (ok : (state.proc p).pc.Ok state (state.proc p)) :
    effect.drops + owns proc = effect.gains + owns (state.proc p) := by
  generalize here : (state.proc p).pc = pc at moves ok
  have quiet : ∀ {proc : Proc}, owns proc = owns (state.proc p) →
      0 + owns proc = 0 + owns (state.proc p) := fun same => congrArg (0 + ·) same
  have moved : ∀ {pc' : Pc}, pc'.held = pc.held → (∀ fd, pc'.holds fd = pc.holds fd) →
      0 + owns ((state.proc p).goto pc') = 0 + owns (state.proc p) :=
    fun held holds => quiet (owns_goto (here ▸ held) (here ▸ holds))
  have gained : ∀ {pc' : Pc} {f : Nat}, pc'.held = f ::ₘ pc.held →
      (∀ fd, pc'.holds fd = pc.holds fd) →
      0 + owns ((state.proc p).goto pc') = {f} + owns (state.proc p) :=
    fun held holds => (zero_add _).trans (owns_gain (here ▸ held) (here ▸ holds))
  have stored : ∀ {pc' : Pc} {fd : Nat} {file : Option Nat}, fd < nofile →
      (∀ fd, pc.holds fd = true) → (∀ fd, pc'.holds fd = true) →
      fdFile file + pc'.held = fdFile ((state.proc p).ofile fd) + pc.held →
      0 + owns (((state.proc p).store fd file).goto pc') = 0 + owns (state.proc p) :=
    fun inside all all' held => quiet (owns_store inside (here ▸ all) all' (here ▸ held))
  have closed : ∀ {pc' : Pc} {f : Nat} {cont : Cont}, pc = .fileclose f cont →
      pc'.held = cont.held → (∀ fd, pc'.holds fd = cont.holds fd) →
      {f} + owns ((state.proc p).goto pc') = 0 + owns (state.proc p) := by
    intro pc' f cont equal held holds
    rw [zero_add, owns_close (here.trans equal) (equal ▸ ok) held holds]
  have continued : ∀ {cont : Cont}, pc.held = cont.held → (∀ fd, pc.holds fd = cont.holds fd) →
      0 + owns ((state.proc p).goto cont.pc) = 0 + owns (state.proc p) :=
    fun held holds => quiet (owns_cont (here ▸ held) (here ▸ holds))
  cases moves with
  | refuse => exact quiet rfl
  | start start =>
    rcases start_quiet start with ⟨held, holds⟩
    exact moved held holds
  | dupStore bound named inside free => exact quiet (owns_dupStored here free)
  | close inside named =>
    apply stored inside (fun _ => rfl) (fun _ => rfl)
    rw [named]
    exact add_comm _ _
  | openAlloc | pipeAlloc | forkDup => exact gained rfl fun _ => rfl
  | openStore inside free | pipeStoreSecond inside free =>
    apply stored inside (fun _ => rfl) (fun _ => rfl)
    rw [free]
    exact add_comm _ _
  | pipeAllocSecond bound free => exact gained (Multiset.pair_comm _ _) fun _ => rfl
  | pipeStore inside free =>
    apply stored inside (fun _ => rfl) (fun _ => rfl)
    rw [free]
    exact (zero_add _).symm
  | pipeFullSecond =>
    apply stored ok.1 (fun _ => rfl) (fun _ => rfl)
    rw [ok.2]
    exact zero_add _
  | copyoutFail => exact quiet (owns_undoPipe here ok.1 ok.2.1 ok.2.2)
  | @dup f fd positive =>
    have counted : {f} + owns (state.proc p) = owns ((state.proc p).goto .user) := by
      rw [owns, owns, here, ← add_assoc]
      have back : (((state.proc p).goto .user).goto (.dupStored f fd)) = state.proc p := by
        rw [← here]
        rfl
      have except := @descriptors_except ((state.proc p).goto .user) (.dupStored f fd) fd f
        ok.1 (fun _ => rfl) (fun _ => rfl)
      rw [back] at except
      rw [except]
      rfl
    rw [← counted]
    exact zero_add _
  | closeMore | closeNone => exact closed rfl (cont_pc_held _) (cont_pc_holds _)
  | closePipe | closeInode => exact closed rfl rfl fun _ => rfl
  | pipeclose | kfree | iput => exact continued rfl fun _ => rfl
  | pipecloseLast | openNone | openFull | openFields | pipeNone | pipeOne | kallocFail | kalloc
  | pipeFields | pipeFull | copyout | forkNone | uvmcopy | forkSkip | exitSkip | exitClose =>
    exact moved rfl fun _ => rfl
  | exitDone outside =>
    have same := @moved .user rfl fun _ => rfl
    exact same
  | exitClear => exact quiet (owns_exitClear here)

/-- A step that gives a record to another slot: the slot does not run, and the two
processes together own what they owned. -/
structure OtherSlot (state : State) (p q : Nat) (effect : Effect) (proc proc' : Proc) :
    Prop where
  slot : q < nproc
  different : q ≠ p
  quiet : effect = .quiet
  notAlive : (state.proc q).state ≠ .alive
  pc : proc'.pc = .user
  owns : owns proc + owns proc' = Files.owns (state.proc p) + Files.owns (state.proc q)

variable {q : Nat}

theorem Moves.otherSlot (ok : Ok state) (slot : p < nproc) (alive : (state.proc p).state = .alive)
    (moves : Moves state p (state.proc p).pc effect (some (q, proc')) proc) :
    OtherSlot state p q effect proc proc' := by
  have here := ok.pcs p slot
  generalize at_ : (state.proc p).pc = pc at moves here
  have different : (state.proc q).state ≠ .alive → q ≠ p := by
    rintro notAlive rfl
    exact notAlive alive
  have moved : ∀ {pc' : Pc}, pc'.held = pc.held → (∀ fd, pc'.holds fd = pc.holds fd) →
      owns ((state.proc p).goto pc') = owns (state.proc p) :=
    fun held holds => owns_goto (at_ ▸ held) (at_ ▸ holds)
  have user := ok.idle q
  cases moves with
  | wait inside zombie =>
    have notAlive : (state.proc q).state ≠ .alive := by simp [zombie]
    exact ⟨inside, different notAlive, rfl, notAlive, user notAlive, rfl⟩
  | allocproc inside unused =>
    have notAlive : (state.proc q).state ≠ .alive := by simp [unused]
    refine ⟨inside, different notAlive, rfl, notAlive, rfl, ?_⟩
    have same : owns (((state.proc q).become .used).goto .user) = owns (state.proc q) := by
      have kept := @owns_goto (state.proc q) .user (by rw [user notAlive])
        (by rw [user notAlive]; exact fun _ => rfl)
      exact kept
    rw [same, @moved (.forkCopy q) rfl fun _ => rfl]
  | uvmcopyFail | forkDone =>
    have notAlive : (state.proc q).state ≠ .alive := by simp [here.state]
    refine ⟨here.slot, different notAlive, rfl, notAlive, user notAlive, ?_⟩
    rw [@moved .user rfl fun _ => rfl]
    rfl
  | @forkStore _ fd f =>
    have notAlive : (state.proc q).state ≠ .alive := by simp [here.1.state]
    refine ⟨here.1.slot, different notAlive, rfl, notAlive, user notAlive, ?_⟩
    -- the child has the reference that the call held
    have all : ∀ fd, (state.proc q).pc.holds fd = true := by
      rw [user notAlive]
      exact fun _ => rfl
    have same : ((state.proc q).store fd (some f)).goto .user =
        (state.proc q).store fd (some f) := by
      rw [← user notAlive]
      rfl
    have stored := @descriptors_store (state.proc q) .user fd (some f) here.2 all fun _ => rfl
    rw [here.1.unset fd here.2 (Nat.le_refl _), same] at stored
    have child : owns ((state.proc q).store fd (some f)) = {f} + owns (state.proc q) := by
      rw [owns, owns, ← add_assoc]
      exact congrArg (· + (state.proc q).pc.held) ((zero_add _).symm.trans stored)
    have parent : {f} + owns ((state.proc p).goto (.forkDup q (fd + 1))) =
        owns (state.proc p) := by
      rw [owns, owns, at_, descriptors_goto (by rw [at_]; exact fun _ => rfl)]
      change {f} + (descriptors (state.proc p) + 0) = descriptors (state.proc p) + {f}
      rw [add_zero, add_comm]
    rw [child, ← parent]
    exact (add_left_comm _ _ _).trans (add_assoc _ _ _).symm

/-! ## The counts -/

theorem State.setFile_file (state : State) (f : Nat) (file : File) :
    (state.setFile f file).file = update state.file f file := rfl

theorem setRef_ref (state : State) (f ref g : Nat) :
    ((state.setRef f ref).file g).ref = if g = f then ref else (state.file g).ref := by
  rw [State.setRef, State.setFile_file, update_apply]
  split <;> rfl

/-- The file of one end of a new pipe. -/
def pipeEnd (file : File) (writable : Bool) (pi number : Nat) : File :=
  { file with
    type := .pipe, readable := !writable, writable := writable, pipe := pi, number := number }

theorem pipeFields_file (state : State) (rf wf pi : Nat) :
    (pipeFields state rf wf pi).file =
      let first := update state.file rf (pipeEnd (state.file rf) false pi state.opened)
      update first wf (pipeEnd (first wf) true pi (state.opened + 1)) := rfl

theorem update_ref {file : Nat → File} {new : File} (same : new.ref = (file f).ref) (g : Nat) :
    (update file f new g).ref = (file g).ref := by
  rw [update_apply]
  split
  · rename_i equal
    rw [equal, same]
  · rfl

theorem openFields_ref (state : State) (found : Found) (f g : Nat) :
    ((openFields state found f).file g).ref = (state.file g).ref := by
  apply update_ref
  rfl

theorem pipeFields_ref (state : State) (rf wf pi g : Nat) :
    ((pipeFields state rf wf pi).file g).ref = (state.file g).ref := by
  have first : ∀ g, (update state.file rf
      (pipeEnd (state.file rf) false pi state.opened) g).ref = (state.file g).ref := by
    apply update_ref
    rfl
  rw [pipeFields_file, ← first g]
  apply update_ref
  rfl

theorem Moves.ref_apply (moves : Moves state p pc effect other proc) (f : Nat) :
    ((effect.apply state).file f).ref + effect.drops.count f =
      (state.file f).ref + effect.gains.count f := by
  have single : ∀ g : Nat, ({g} : Multiset Nat).count f = if f = g then 1 else 0 :=
    fun g => Multiset.count_singleton f g
  cases effect with
  | quiet | kalloc | kfree | pipeclose | iput => rfl
  | openFields found g => exact congrArg (· + 0) (openFields_ref state found g f)
  | pipeFields rf wf pi => exact congrArg (· + 0) (pipeFields_ref state rf wf pi f)
  | count g =>
    rw [Effect.apply, setRef_ref, Effect.gains, single]
    split
    · rename_i equal
      rw [equal]
      rfl
    · rfl
  | uncount g =>
    have more : 1 < (state.file g).ref := by
      cases moves
      assumption
    rw [Effect.apply, setRef_ref, Effect.drops, single]
    split
    · rename_i equal
      rw [equal]
      exact Nat.sub_add_cancel (Nat.le_of_lt more)
    · rfl
  | last g =>
    have one : (state.file g).ref = 1 := by
      cases moves <;> assumption
    rw [Effect.apply, State.setFile_file, update_apply, Effect.drops, single]
    split
    · rename_i equal
      rw [equal, one]
      rfl
    · rfl

/-- The file slots that an effect writes. -/
def Effect.files : Effect → Multiset Nat
  | .count f | .uncount f | .last f | .openFields _ f => {f}
  | .pipeFields rf wf _ => {rf, wf}
  | .quiet | .kalloc _ | .kfree _ | .pipeclose _ | .iput _ => 0

theorem Effect.apply_file_of_notMem (effect : Effect) (outside : g ∉ effect.files) :
    (effect.apply state).file g = state.file g := by
  cases effect with
  | quiet | kalloc | kfree | pipeclose | iput => rfl
  | count f | uncount f | last f | openFields found f =>
    exact update_of_ne (fun equal => outside (Multiset.mem_singleton.mpr equal)) _ _
  | pipeFields rf wf pi =>
    have notFirst : g ≠ rf := by
      intro equal
      exact outside (equal ▸ Multiset.mem_cons_self rf {wf})
    have notSecond : g ≠ wf := by
      intro equal
      exact outside (Multiset.mem_cons_of_mem (Multiset.mem_singleton.mpr equal))
    rw [Effect.apply, pipeFields_file]
    simp only [update_of_ne notSecond, update_of_ne notFirst]

/-! ## Who has a file -/

theorem Named.owned (named : Named proc fd f) (holds : proc.pc.holds fd = true) :
    f ∈ owns proc := by
  have one : f ∈ slotRef proc fd := by
    rw [slotRef, holds, if_pos rfl, named.2]
    exact Multiset.mem_singleton_self f
  exact Multiset.mem_add.mpr (.inl (Multiset.mem_of_le (slotRef_le named.1) one))

theorem owned_of_held (held : f ∈ proc.pc.held) : f ∈ owns proc :=
  Multiset.mem_add.mpr (.inr held)

namespace Ok

variable (ok : Ok state)

include ok

theorem ref_pos (slot : p < nproc) (owned : f ∈ owns (state.proc p)) : 0 < (state.file f).ref := by
  rw [ok.refs, Multiset.count_pos]
  exact Multiset.mem_of_le (le_overProcs owns state.proc slot) owned

theorem two_le_ref (slot : p < nproc) (slot' : q < nproc) (different : p ≠ q)
    (owned : f ∈ owns (state.proc p)) (owned' : f ∈ owns (state.proc q)) :
    2 ≤ (state.file f).ref := by
  rw [ok.refs]
  calc 2 ≤ (owns (state.proc p)).count f + (owns (state.proc q)).count f := by
        have one := Multiset.one_le_count_iff_mem.mpr owned
        have two := Multiset.one_le_count_iff_mem.mpr owned'
        omega
    _ = (owns (state.proc p) + owns (state.proc q)).count f := (Multiset.count_add _ _ _).symm
    _ ≤ (overProcs owns state.proc).count f :=
        Multiset.count_le_of_le f (add_le_overProcs owns state.proc slot slot' different)

theorem held_pair (slot : p < nproc) (held : (state.proc p).pc.held = {rf, wf})
    (fresh : (state.file rf).ref = 1) : rf ≠ wf := by
  intro equal
  have count := Multiset.count_le_of_le rf (le_overProcs owns state.proc slot)
  rw [← ok.refs, fresh, owns, Multiset.count_add, held, ← equal] at count
  have two : ({rf, rf} : Multiset Nat).count rf = 2 := by simp
  omega

end Ok

end Xv6.Files
