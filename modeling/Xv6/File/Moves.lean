import Xv6.File.Machine

/-! # What a step on open files can do

A step of a process has one effect on the tables, gives the process a new record
and sometimes gives one to another slot of the process table. -/

namespace Xv6.Files

open Function (update update_self update_of_ne update_eq_self update_idem)

namespace Proc

@[simps! -fullyApplied pc ofile state]
def goto (proc : Proc) (pc : Pc) : Proc := { proc with pc := pc }

@[simps! -fullyApplied pc state]
def store (proc : Proc) (fd : Nat) (f : Option Nat) : Proc :=
  { proc with ofile := update proc.ofile fd f }

@[simps! -fullyApplied pc ofile state]
def become (proc : Proc) (state : ProcState) : Proc := { proc with state := state }

@[simp] theorem store_ofile_self (proc : Proc) (fd : Nat) (f : Option Nat) :
    (proc.store fd f).ofile fd = f := update_self _ _ _

theorem store_ofile_of_ne (different : other ≠ fd) (proc : Proc) (f : Option Nat) :
    (proc.store fd f).ofile other = proc.ofile other :=
  update_of_ne different _ _

end Proc

/-- What a step does to the file table, the pipes and the history. -/
inductive Effect where
  | quiet
  /-- A reference more: `filealloc` and `filedup`. -/
  | count (f : Nat)
  /-- A reference less, which was not the last one. -/
  | uncount (f : Nat)
  /-- The last reference goes. -/
  | last (f : Nat)
  | openFields (found : Found) (f : Nat)
  | pipeFields (rf wf pi : Nat)
  | kalloc (pi : Nat)
  | kfree (pi : Nat)
  | pipeclose (ff : File)
  | iput (ff : File)

def Effect.apply (state : State) : Effect → State
  | .quiet => state
  | .count f => state.setRef f ((state.file f).ref + 1)
  | .uncount f => state.setRef f ((state.file f).ref - 1)
  | .last f => state.setFile f { state.file f with ref := 0, type := .none }
  | .openFields found f => Files.openFields state found f
  | .pipeFields rf wf pi => Files.pipeFields state rf wf pi
  | .kalloc pi =>
    { state with allocs := update state.allocs pi (state.allocs pi + 1) }
  | .kfree pi => { state with frees := update state.frees pi (state.frees pi + 1) }
  | .pipeclose ff =>
    (state.setPipe ff.pipe ((state.pipe ff.pipe).close ff.writable)).countClose ff.number
  | .iput ff => state.countClose ff.number

@[simp] theorem Effect.apply_proc (state : State) (effect : Effect) :
    (effect.apply state).proc = state.proc := by
  cases effect <;> rfl

/-- A record for another slot. -/
def State.setOther (state : State) : Option (Nat × Proc) → State
  | none => state
  | some (q, proc) => state.setProc q proc

/-- The state after a step of `p`. -/
def after (state : State) (p : Nat) (effect : Effect) (other : Option (Nat × Proc))
    (proc : Proc) : State :=
  ((effect.apply state).setProc p proc).setOther other

/-- The points where a call can start. -/
def Pc.isStart : Pc → Bool
  | .openFound _ | .pipeStart | .forkStart | .exitLoop 0 => true
  | _ => false

/-- The steps of the process `p` at a point of its code, one rule for each step. -/
inductive Moves (state : State) (p : Nat) :
    Pc → Effect → Option (Nat × Proc) → Proc → Prop
  | refuse : Moves state p .user .quiet none (state.proc p)
  | start {pc} (start : pc.isStart = true) :
      Moves state p .user .quiet none ((state.proc p).goto pc)
  | dupStore {f fd old} (bound : old < nofile) (named : (state.proc p).ofile old = some f)
      (inside : fd < nofile) (free : (state.proc p).ofile fd = none) :
      Moves state p .user .quiet none (((state.proc p).store fd (some f)).goto (.dupStored f fd))
  | close {f fd} (inside : fd < nofile) (named : (state.proc p).ofile fd = some f) :
      Moves state p .user .quiet none (((state.proc p).store fd none).goto (.fileclose f .done))
  | wait {q} (slot : q < nproc) (zombie : (state.proc q).state = .zombie) :
      Moves state p .user .quiet (some (q, (state.proc q).become .unused)) (state.proc p)
  | openNone {found} : Moves state p (.openFound found) .quiet none ((state.proc p).goto .user)
  | openAlloc {found f} (bound : f < nfile) (free : (state.file f).ref = 0) :
      Moves state p (.openFound found) (.count f) none ((state.proc p).goto (.openFile found f))
  | openFull {found f} :
      Moves state p (.openFile found f) .quiet none ((state.proc p).goto (.fileclose f .done))
  | openStore {found f fd} (inside : fd < nofile) (free : (state.proc p).ofile fd = none) :
      Moves state p (.openFile found f) .quiet none
        (((state.proc p).store fd (some f)).goto (.openStored found f))
  | openFields {found f} :
      Moves state p (.openStored found f) (.openFields found f) none ((state.proc p).goto .user)
  | pipeNone : Moves state p .pipeStart .quiet none ((state.proc p).goto .user)
  | pipeAlloc {rf} (bound : rf < nfile) (free : (state.file rf).ref = 0) :
      Moves state p .pipeStart (.count rf) none ((state.proc p).goto (.pipeFile rf))
  | pipeOne {rf} :
      Moves state p (.pipeFile rf) .quiet none ((state.proc p).goto (.fileclose rf .done))
  | pipeAllocSecond {rf wf} (bound : wf < nfile) (free : (state.file wf).ref = 0) :
      Moves state p (.pipeFile rf) (.count wf) none ((state.proc p).goto (.pipeFiles rf wf))
  | kallocFail {rf wf} :
      Moves state p (.pipeFiles rf wf) .quiet none
        ((state.proc p).goto (.fileclose rf (.fileclose wf)))
  | kalloc {rf wf pi} (free : state.allocs pi = state.frees pi) :
      Moves state p (.pipeFiles rf wf) (.kalloc pi) none ((state.proc p).goto (.pipePage rf wf pi))
  | pipeFields {rf wf pi} :
      Moves state p (.pipePage rf wf pi) (.pipeFields rf wf pi) none
        ((state.proc p).goto (.pipeMade rf wf))
  | pipeFull {rf wf} :
      Moves state p (.pipeMade rf wf) .quiet none
        ((state.proc p).goto (.fileclose rf (.fileclose wf)))
  | pipeStore {rf wf fd0} (inside : fd0 < nofile) (free : (state.proc p).ofile fd0 = none) :
      Moves state p (.pipeMade rf wf) .quiet none
        (((state.proc p).store fd0 (some rf)).goto (.pipeStored rf wf fd0))
  | pipeFullSecond {rf wf fd0} :
      Moves state p (.pipeStored rf wf fd0) .quiet none
        (((state.proc p).store fd0 none).goto (.fileclose rf (.fileclose wf)))
  | pipeStoreSecond {rf wf fd0 fd1} (inside : fd1 < nofile)
      (free : (state.proc p).ofile fd1 = none) :
      Moves state p (.pipeStored rf wf fd0) .quiet none
        (((state.proc p).store fd1 (some wf)).goto (.pipeCopy rf wf fd0 fd1))
  | copyout {rf wf fd0 fd1} :
      Moves state p (.pipeCopy rf wf fd0 fd1) .quiet none ((state.proc p).goto .user)
  | copyoutFail {rf wf fd0 fd1} :
      Moves state p (.pipeCopy rf wf fd0 fd1) .quiet none
        ((((state.proc p).store fd0 none).store fd1 none).goto (.fileclose rf (.fileclose wf)))
  | dup {f fd} (positive : 1 ≤ (state.file f).ref) :
      Moves state p (.dupStored f fd) (.count f) none ((state.proc p).goto .user)
  | closeMore {f cont} (more : 1 < (state.file f).ref) :
      Moves state p (.fileclose f cont) (.uncount f) none ((state.proc p).goto cont.pc)
  | closePipe {f cont} (one : (state.file f).ref = 1) (type : (state.file f).type = .pipe) :
      Moves state p (.fileclose f cont) (.last f) none
        ((state.proc p).goto (.pipeclose (state.file f) cont))
  | closeInode {f cont} (one : (state.file f).ref = 1)
      (type : (state.file f).type = .inode ∨ (state.file f).type = .device) :
      Moves state p (.fileclose f cont) (.last f) none
        ((state.proc p).goto (.iput (state.file f) cont))
  | closeNone {f cont} (one : (state.file f).ref = 1) (type : (state.file f).type = .none) :
      Moves state p (.fileclose f cont) (.last f) none ((state.proc p).goto cont.pc)
  | pipeclose {ff cont}
      (stillOpen : ((state.pipe ff.pipe).close ff.writable).readopen = true ∨
        ((state.pipe ff.pipe).close ff.writable).writeopen = true) :
      Moves state p (.pipeclose ff cont) (.pipeclose ff) none ((state.proc p).goto cont.pc)
  | pipecloseLast {ff cont}
      (readopen : ((state.pipe ff.pipe).close ff.writable).readopen = false)
      (writeopen : ((state.pipe ff.pipe).close ff.writable).writeopen = false) :
      Moves state p (.pipeclose ff cont) (.pipeclose ff) none
        ((state.proc p).goto (.kfree ff.pipe cont))
  | kfree {pi cont} : Moves state p (.kfree pi cont) (.kfree pi) none ((state.proc p).goto cont.pc)
  | iput {ff cont} : Moves state p (.iput ff cont) (.iput ff) none ((state.proc p).goto cont.pc)
  | forkNone : Moves state p .forkStart .quiet none ((state.proc p).goto .user)
  | allocproc {np} (slot : np < nproc) (unused : (state.proc np).state = .unused) :
      Moves state p .forkStart .quiet (some (np, ((state.proc np).become .used).goto .user))
        ((state.proc p).goto (.forkCopy np))
  | uvmcopyFail {np} :
      Moves state p (.forkCopy np) .quiet (some (np, (state.proc np).become .unused))
        ((state.proc p).goto .user)
  | uvmcopy {np} : Moves state p (.forkCopy np) .quiet none ((state.proc p).goto (.forkDup np 0))
  | forkSkip {np fd} :
      Moves state p (.forkDup np fd) .quiet none ((state.proc p).goto (.forkDup np (fd + 1)))
  | forkDup {np fd f} (inside : fd < nofile) (named : (state.proc p).ofile fd = some f)
      (positive : 1 ≤ (state.file f).ref) :
      Moves state p (.forkDup np fd) (.count f) none ((state.proc p).goto (.forkStore np fd f))
  | forkDone {np fd} :
      Moves state p (.forkDup np fd) .quiet (some (np, (state.proc np).become .alive))
        ((state.proc p).goto .user)
  | forkStore {np fd f} :
      Moves state p (.forkStore np fd f) .quiet (some (np, (state.proc np).store fd (some f)))
        ((state.proc p).goto (.forkDup np (fd + 1)))
  | exitSkip {fd} (free : (state.proc p).ofile fd = none) :
      Moves state p (.exitLoop fd) .quiet none ((state.proc p).goto (.exitLoop (fd + 1)))
  | exitClose {fd f} (inside : fd < nofile) (named : (state.proc p).ofile fd = some f) :
      Moves state p (.exitLoop fd) .quiet none ((state.proc p).goto (.fileclose f (.exit fd)))
  | exitDone {fd} (outside : nofile ≤ fd) :
      Moves state p (.exitLoop fd) .quiet none (((state.proc p).become .zombie).goto .user)
  | exitClear {fd} :
      Moves state p (.exitClear fd) .quiet none
        (((state.proc p).store fd none).goto (.exitLoop (fd + 1)))

variable {state next : State} {p : Nat}

/-! ## The steps of the machine are these -/

variable {q : Nat}

namespace State

theorem setProc_setProc (state : State) (p : Nat) (first second : Proc) :
    (state.setProc p first).setProc p second = state.setProc p second := by
  simp only [setProc, update_idem]

theorem setProc_self (state : State) (p : Nat) : state.setProc p (state.proc p) = state := by
  simp only [setProc, update_eq_self]

@[simp] theorem setProc_proc_self (state : State) (p : Nat) (proc : Proc) :
    (state.setProc p proc).proc p = proc := update_self _ _ _

theorem setProc_proc_of_ne (different : q ≠ p) (state : State) (proc : Proc) :
    (state.setProc p proc).proc q = state.proc q := update_of_ne different _ _

theorem setFd_setPc (state : State) (p fd : Nat) (f : Option Nat) (pc : Pc) :
    (state.setFd p fd f).setPc p pc = state.setProc p (((state.proc p).store fd f).goto pc) := by
  rw [setPc, setFd, setProc_setProc, setProc_proc_self]
  rfl

end State

variable {f : Nat}

theorem freeFile_eq_some (found : freeFile state = some f) :
    f < nfile ∧ (state.file f).ref = 0 := by
  have free := List.find?_some found
  exact ⟨List.mem_range.mp (List.mem_of_find?_eq_some found), by simpa using free⟩

variable {proc : Proc}

theorem freeFd_eq_some (found : freeFd proc = some fd) : fd < nofile ∧ proc.ofile fd = none := by
  have free := List.find?_some found
  exact ⟨List.mem_range.mp (List.mem_of_find?_eq_some found), by simpa using free⟩

theorem argfd_eq_some (found : argfd proc fd = some f) :
    fd.toNat < nofile ∧ proc.ofile fd.toNat = some f := by
  unfold argfd at found
  split at found
  · cases found
  · exact ⟨by omega, found⟩

/-- What a step says about the process that takes it. -/
def Stepped (state : State) (p : Nat) (next : State) : Prop :=
  ∃ effect other proc, Moves state p (state.proc p).pc effect other proc ∧
    next = after state p effect other proc

variable {pc : Pc}

theorem Stepped.of_quiet (here : (state.proc p).pc = pc) (moves : Moves state p pc .quiet none proc) :
    Stepped state p (state.setProc p proc) :=
  ⟨_, _, _, here ▸ moves, rfl⟩

theorem Stepped.of_effect (here : (state.proc p).pc = pc)
    (moves : Moves state p pc effect none ((state.proc p).goto pc')) :
    Stepped state p ((effect.apply state).setPc p pc') := by
  refine ⟨_, _, _, here ▸ moves, ?_⟩
  rw [State.setPc, Effect.apply_proc]
  rfl

theorem Stepped.of_other (here : (state.proc p).pc = pc)
    (moves : Moves state p pc .quiet (some (q, proc')) proc) :
    Stepped state p ((state.setProc p proc).setProc q proc') :=
  ⟨_, _, _, here ▸ moves, rfl⟩

theorem enter_stepped (here : (state.proc p).pc = .user) (stepEq : enter state p call = .next next) :
    Stepped state p next := by
  have refused : Stepped state p state := by
    have quiet := Stepped.of_quiet here .refuse
    rwa [State.setProc_self] at quiet
  cases call with
  | «open» found =>
    cases found with
    | none =>
      cases stepEq
      exact refused
    | some found =>
      cases stepEq
      exact .of_quiet here (.start rfl)
  | pipe | fork | exit =>
    cases stepEq
    exact .of_quiet here (.start rfl)
  | dup fd =>
    simp only [enter] at stepEq
    split at stepEq
    · cases stepEq
      exact refused
    · rename_i f found
      split at stepEq
      · cases stepEq
        exact refused
      · rename_i new free
        cases stepEq
        rcases argfd_eq_some found with ⟨bound, named⟩
        rcases freeFd_eq_some free with ⟨inside, unused⟩
        rw [State.setFd_setPc]
        exact .of_quiet here (.dupStore bound named inside unused)
  | close fd =>
    simp only [enter] at stepEq
    split at stepEq
    · cases stepEq
      exact refused
    · rename_i f found
      cases stepEq
      rcases argfd_eq_some found with ⟨bound, named⟩
      rw [State.setFd_setPc]
      exact .of_quiet here (.close bound named)
  | wait q =>
    simp only [enter] at stepEq
    split at stepEq
    · rename_i zombie
      cases stepEq
      have stepped := Stepped.of_other here (.wait zombie.1 zombie.2)
      rw [State.setProc_self] at stepped
      exact stepped
    · cases stepEq

variable {cont : Cont}

theorem closeStep_stepped (here : (state.proc p).pc = .fileclose f cont)
    (stepEq : closeStep state p f cont = .next next) : Stepped state p next := by
  unfold closeStep at stepEq
  simp only at stepEq
  split at stepEq
  · cases stepEq
  · split at stepEq
    · rename_i more
      cases stepEq
      exact .of_effect here (.closeMore (by omega))
    · have one : (state.file f).ref = 1 := by omega
      split at stepEq
      · cases stepEq
        exact .of_effect here (.closePipe one ‹_›)
      · cases stepEq
        exact .of_effect here (.closeInode one (.inl ‹_›))
      · cases stepEq
        exact .of_effect here (.closeInode one (.inr ‹_›))
      · cases stepEq
        exact .of_effect here (.closeNone one ‹_›)

theorem pipecloseStep_stepped (here : (state.proc p).pc = .pipeclose ff cont) :
    Stepped state p (pipecloseStep state p ff cont) := by
  simp only [pipecloseStep]
  split
  · rename_i closed
    exact .of_effect here (.pipecloseLast closed.1 closed.2)
  · rename_i stillOpen
    rw [not_and_or, Bool.not_eq_false, Bool.not_eq_false] at stillOpen
    exact .of_effect here (.pipeclose stillOpen)

theorem setRef_of_free (free : (state.file f).ref = 0) :
    state.setRef f 1 = (Effect.count f).apply state := by
  rw [Effect.apply, free]

theorem proceed_stepped (stepEq : proceed state p = .next next) : Stepped state p next := by
  rw [proceed] at stepEq
  cases here : (state.proc p).pc with
  | user | pipeFiles | pipeCopy | forkStart | forkCopy => simp [here] at stepEq
  | openFound found =>
    simp only [here] at stepEq
    split at stepEq
    · cases stepEq
      exact .of_quiet here .openNone
    · rename_i f found
      rcases freeFile_eq_some found with ⟨bound, free⟩
      rw [setRef_of_free free] at stepEq
      cases stepEq
      exact .of_effect here (.openAlloc bound free)
  | openFile found f =>
    simp only [here] at stepEq
    split at stepEq
    · cases stepEq
      exact .of_quiet here .openFull
    · rename_i fd found
      rcases freeFd_eq_some found with ⟨inside, free⟩
      rw [State.setFd_setPc] at stepEq
      cases stepEq
      exact .of_quiet here (.openStore inside free)
  | openStored found f =>
    simp only [here] at stepEq
    cases stepEq
    exact .of_effect here .openFields
  | pipeStart =>
    simp only [here] at stepEq
    split at stepEq
    · cases stepEq
      exact .of_quiet here .pipeNone
    · rename_i f found
      rcases freeFile_eq_some found with ⟨bound, free⟩
      rw [setRef_of_free free] at stepEq
      cases stepEq
      exact .of_effect here (.pipeAlloc bound free)
  | pipeFile rf =>
    simp only [here] at stepEq
    split at stepEq
    · cases stepEq
      exact .of_quiet here .pipeOne
    · rename_i f found
      rcases freeFile_eq_some found with ⟨bound, free⟩
      rw [setRef_of_free free] at stepEq
      cases stepEq
      exact .of_effect here (.pipeAllocSecond bound free)
  | pipePage rf wf pi =>
    simp only [here] at stepEq
    cases stepEq
    exact .of_effect here .pipeFields
  | pipeMade rf wf =>
    simp only [here] at stepEq
    split at stepEq
    · cases stepEq
      exact .of_quiet here .pipeFull
    · rename_i fd found
      rcases freeFd_eq_some found with ⟨inside, free⟩
      rw [State.setFd_setPc] at stepEq
      cases stepEq
      exact .of_quiet here (.pipeStore inside free)
  | pipeStored rf wf fd0 =>
    simp only [here] at stepEq
    split at stepEq
    · rw [State.setFd_setPc] at stepEq
      cases stepEq
      exact .of_quiet here .pipeFullSecond
    · rename_i fd found
      rcases freeFd_eq_some found with ⟨inside, free⟩
      rw [State.setFd_setPc] at stepEq
      cases stepEq
      exact .of_quiet here (.pipeStoreSecond inside free)
  | dupStored f fd =>
    simp only [here] at stepEq
    split at stepEq
    · cases stepEq
    · cases stepEq
      exact .of_effect here (.dup (by omega))
  | fileclose f cont =>
    simp only [here] at stepEq
    exact closeStep_stepped here stepEq
  | pipeclose ff cont =>
    simp only [here] at stepEq
    cases stepEq
    exact pipecloseStep_stepped here
  | kfree pi cont =>
    simp only [here] at stepEq
    cases stepEq
    exact .of_effect here .kfree
  | iput ff cont =>
    simp only [here] at stepEq
    cases stepEq
    exact .of_effect here .iput
  | forkDup np fd =>
    simp only [here] at stepEq
    split at stepEq
    · rename_i inside
      split at stepEq
      · cases stepEq
        exact .of_quiet here .forkSkip
      · rename_i f named
        split at stepEq
        · cases stepEq
        · cases stepEq
          exact .of_effect here (.forkDup inside named (by omega))
    · cases stepEq
      exact .of_other here .forkDone
  | forkStore np fd f =>
    simp only [here] at stepEq
    cases stepEq
    exact .of_other here .forkStore
  | exitLoop fd =>
    simp only [here] at stepEq
    split at stepEq
    · rename_i inside
      split at stepEq
      · rename_i free
        cases stepEq
        exact .of_quiet here (.exitSkip free)
      · rename_i f named
        cases stepEq
        exact .of_quiet here (.exitClose inside named)
    · rename_i outside
      cases stepEq
      exact .of_quiet here (.exitDone (by omega))
  | exitClear fd =>
    simp only [here, State.setFd_setPc] at stepEq
    cases stepEq
    exact .of_quiet here .exitClear

theorem kallocStep_stepped (stepEq : kallocStep state p page = .next next) :
    Stepped state p next := by
  unfold kallocStep at stepEq
  split at stepEq
  · rename_i rf wf here
    cases stepEq
    exact .of_quiet here .kallocFail
  · rename_i rf wf pi here
    split at stepEq
    · rename_i free
      cases stepEq
      exact .of_effect here (.kalloc free)
    · cases stepEq
  · cases stepEq

variable {ok : Bool}

theorem copyoutStep_stepped (stepEq : copyoutStep state p ok = .next next) :
    Stepped state p next := by
  unfold copyoutStep at stepEq
  split at stepEq
  · rename_i rf wf fd0 fd1 here
    split at stepEq
    · cases stepEq
      exact .of_quiet here .copyout
    · rw [State.setFd_setPc] at stepEq
      cases stepEq
      rw [State.setFd, State.setProc_setProc, State.setProc_proc_self]
      exact .of_quiet here .copyoutFail
  · cases stepEq

theorem allocprocStep_stepped (stepEq : allocprocStep state p np = .next next) :
    Stepped state p next := by
  unfold allocprocStep at stepEq
  split at stepEq
  · rename_i here
    cases stepEq
    exact .of_quiet here .forkNone
  · rename_i np here
    split at stepEq
    · rename_i unused
      cases stepEq
      exact .of_other here (.allocproc unused.1 unused.2)
    · cases stepEq
  · cases stepEq

theorem uvmcopyStep_stepped (stepEq : uvmcopyStep state p ok = .next next) :
    Stepped state p next := by
  unfold uvmcopyStep at stepEq
  split at stepEq
  · rename_i np here
    split at stepEq
    · cases stepEq
      exact .of_quiet here .uvmcopy
    · cases stepEq
      exact .of_other here .uvmcopyFail
  · cases stepEq

/-- Every step of the machine is one of the rules, taken by a process that is
alive. -/
theorem step_moves (stepEq : step state (p, action) = .next next) :
    p < nproc ∧ (state.proc p).state = .alive ∧ Stepped state p next := by
  simp only [step] at stepEq
  split at stepEq
  · rename_i running
    refine ⟨running.1, running.2, ?_⟩
    cases action with
    | call call =>
      simp only at stepEq
      split at stepEq
      · exact enter_stepped ‹_› stepEq
      · cases stepEq
    | proceed => exact proceed_stepped stepEq
    | kalloc page => exact kallocStep_stepped stepEq
    | copyout ok => exact copyoutStep_stepped stepEq
    | allocproc np => exact allocprocStep_stepped stepEq
    | uvmcopy ok => exact uvmcopyStep_stepped stepEq
  · cases stepEq

end Xv6.Files
