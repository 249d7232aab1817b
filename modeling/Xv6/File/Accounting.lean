import Xv6.File.Invariant
import Mathlib.Tactic.Abel

/-! # Pipes and the last close of a file

An open file has one opening: it is in the file table, or in the copy that the last
`fileclose` has made of it. -/

namespace Xv6.Files

open Function (update update_self update_of_ne update_apply)

/-- A file that has been opened; for a pipe, which end of which pipe it is. -/
structure Opening where
  number : Nat
  pipe : Option (Nat × Bool)
  deriving DecidableEq

def File.opening (file : File) : Multiset Opening :=
  match file.type with
  | .none => 0
  | .pipe => {⟨file.number, some (file.pipe, file.writable)⟩}
  | .inode | .device => {⟨file.number, none⟩}

/-- The copy of a running `fileclose`. -/
def Pc.closing : Pc → Multiset Opening
  | .pipeclose ff _ | .iput ff _ => ff.opening
  | _ => 0

@[irreducible] def fileSlots : Finset Nat := Finset.range nfile

variable {f : Nat}

theorem mem_fileSlots : f ∈ fileSlots ↔ f < nfile := by
  rw [fileSlots, Finset.mem_range]

/-- What is open according to the file table. -/
def openings (file : Nat → File) : Multiset Opening := ∑ f ∈ fileSlots, (file f).opening

/-- What is open. -/
def live (state : State) : Multiset Opening :=
  openings state.file + overProcs (fun proc => proc.pc.closing) state.proc

/-- The pages that a call has from `kalloc` and has not made a pipe of, or is about
to give to `kfree`. -/
def Pc.pages : Pc → Multiset Nat
  | .pipePage _ _ pi | .kfree pi _ => {pi}
  | _ => 0

/-- What the copy of a running `fileclose` is a copy of. -/
def Pc.Typed : Pc → Prop
  | .pipeclose ff _ => ff.type = .pipe
  | .iput ff _ => ff.type = .inode ∨ ff.type = .device
  | _ => True

/-- Whether an end of a pipe is open. -/
def Pipe.inUse (pi : Pipe) : Bool := pi.readopen || pi.writeopen

structure Accounted (state : State) : Prop where
  typed : ∀ p < nproc, (state.proc p).pc.Typed
  ends : ∀ pi writable, (live state).countP (fun opening => opening.pipe = some (pi, writable)) =
    if (state.pipe pi).isOpen writable then 1 else 0
  numbers : ∀ number, (live state).countP (fun opening => opening.number = number) +
    state.closes number = if number < state.opened then 1 else 0
  pages : ∀ pi, state.allocs pi = state.frees pi +
    (overProcs (fun proc => proc.pc.pages) state.proc).count pi +
      if (state.pipe pi).inUse then 1 else 0
  single : ∀ pi, state.allocs pi ≤ state.frees pi + 1

theorem countP_single (Holds : Opening → Prop) [DecidablePred Holds] (opening : Opening) :
    ({opening} : Multiset Opening).countP Holds = if Holds opening then 1 else 0 :=
  (Multiset.countP_cons Holds opening 0).trans (Nat.zero_add _)

theorem Pipe.isOpen_of_not_inUse (pi : Pipe) (unused : pi.inUse = false) (writable : Bool) :
    pi.isOpen writable = false := by
  rw [inUse, Bool.or_eq_false_iff] at unused
  cases writable
  · exact unused.1
  · exact unused.2

theorem Pipe.isOpen_close (pi : Pipe) (closed writable : Bool) :
    (pi.close closed).isOpen writable = if closed = writable then false else pi.isOpen writable := by
  cases closed <;> cases writable <;> rfl

theorem isOpen_pipeFields (state : State) (rf wf pi' pi : Nat) (writable : Bool) :
    (((Effect.pipeFields rf wf pi').apply state).pipe pi).isOpen writable =
      if pi = pi' then true else (state.pipe pi).isOpen writable := by
  have pipe : ((Effect.pipeFields rf wf pi').apply state).pipe =
      update state.pipe pi' ⟨true, true⟩ := rfl
  rw [pipe, update_apply]
  split
  · cases writable <;> rfl
  · rfl

theorem isOpen_pipeclose (state : State) (ff : File) (pi : Nat) (writable : Bool) :
    (((Effect.pipeclose ff).apply state).pipe pi).isOpen writable =
      if (ff.pipe, ff.writable) = (pi, writable) then false
      else (state.pipe pi).isOpen writable := by
  have pipe : ((Effect.pipeclose ff).apply state).pipe =
      update state.pipe ff.pipe ((state.pipe ff.pipe).close ff.writable) := rfl
  rw [pipe, update_apply]
  by_cases same : pi = ff.pipe
  · rw [if_pos same, Pipe.isOpen_close, same]
    simp only [Prod.mk.injEq, true_and]
  · have different : ¬ (ff.pipe, ff.writable) = (pi, writable) := by
      intro equal
      exact same (Prod.mk.inj equal).1.symm
    rw [if_neg same, if_neg different]

/-! ## What a step opens and closes -/

def Effect.opens (opened : Nat) : Effect → Multiset Opening
  | .openFields _ _ => {⟨opened, none⟩}
  | .pipeFields _ _ pi => {⟨opened, some (pi, false)⟩} + {⟨opened + 1, some (pi, true)⟩}
  | _ => 0

def Effect.finishes : Effect → Multiset Opening
  | .pipeclose ff => {⟨ff.number, some (ff.pipe, ff.writable)⟩}
  | .iput ff => {⟨ff.number, none⟩}
  | _ => 0

variable {file : File}

theorem File.opening_none (type : file.type = .none) : file.opening = 0 := by
  rw [opening, type]

theorem File.opening_pipe (type : file.type = .pipe) :
    file.opening = {⟨file.number, some (file.pipe, file.writable)⟩} := by
  rw [opening, type]

theorem File.opening_inode (type : file.type = .inode ∨ file.type = .device) :
    file.opening = {⟨file.number, none⟩} := by
  rcases type with type | type <;> rw [opening, type]

theorem openings_update (file : Nat → File) (slot : f < nfile) (new : File) :
    (file f).opening + openings (update file f new) = new.opening + openings file := by
  have change := sum_change (fun g => (file g).opening)
    (fun g => (update file f new g).opening) (mem_fileSlots.mpr slot)
    fun g _ different => congrArg File.opening (update_of_ne different _ _)
  simp only [update_self] at change
  exact change

theorem openings_setRef (state : State) (f ref : Nat) :
    openings (state.setRef f ref).file = openings state.file := by
  apply Finset.sum_congr rfl
  intro g _
  rw [State.setRef, State.setFile_file, update_apply]
  split
  · rename_i equal
    rw [equal]
    rfl
  · rfl

theorem openings_fresh {file : Nat → File} (slot : f < nfile) (fresh : (file f).type = .none)
    (new : File) : openings (update file f new) = new.opening + openings file := by
  have change := openings_update file slot new
  rwa [File.opening_none fresh, zero_add] at change

variable {state : State} {p : Nat} {effect : Effect} {other : Option (Nat × Proc)} {proc : Proc}

theorem Cont.pc_closing (cont : Cont) : cont.pc.closing = 0 := by
  cases cont <;> rfl

theorem Cont.pc_pages (cont : Cont) : cont.pc.pages = 0 := by
  cases cont <;> rfl

variable {pc : Pc}

theorem Pc.closing_of_isStart (start : pc.isStart = true) : pc.closing = 0 := by
  cases pc <;> first | rfl | cases start

theorem Pc.pages_of_isStart (start : pc.isStart = true) : pc.pages = 0 := by
  cases pc <;> first | rfl | cases start

section Step

variable (ok : Ok state) (slot : p < nproc) (alive : (state.proc p).state = .alive)
  (moves : Moves state p (state.proc p).pc effect other proc)

include ok

theorem openings_last (one : (state.file f).ref = 1) :
    (state.file f).opening + openings ((Effect.last f).apply state).file = openings state.file := by
  have bound := ok.bounded f (by omega)
  have change := openings_update state.file bound { state.file f with ref := 0, type := .none }
  exact change.trans (zero_add _)

include slot moves

theorem live_self (typed : (state.proc p).pc.Typed) :
    effect.finishes + (openings (effect.apply state).file + proc.pc.closing) =
      effect.opens state.opened + (openings state.file + (state.proc p).pc.closing) := by
  have here := ok.pcs p slot
  generalize at_ : (state.proc p).pc = pc at moves here typed
  have same : ∀ {pc' : Pc}, pc'.closing = pc.closing →
      (0 : Multiset Opening) + (openings state.file + pc'.closing) =
        0 + (openings state.file + pc.closing) := fun equal => by rw [equal]
  have finished : ∀ {pc' : Pc} {opening : Opening}, pc'.closing = 0 → pc.closing = {opening} →
      {opening} + (openings state.file + pc'.closing) = 0 + (openings state.file + pc.closing) := by
    intro pc' opening none one
    rw [none, one, add_zero, zero_add, add_comm]
  cases moves with
  | refuse | wait =>
    rw [at_]
    rfl
  | start start => exact same (Pc.closing_of_isStart start)
  | openAlloc | pipeAlloc | pipeAllocSecond | dup | forkDup =>
    rw [Effect.apply, openings_setRef]
    rfl
  | closeMore more =>
    rw [Effect.apply, openings_setRef, Proc.goto_pc, Cont.pc_closing]
    rfl
  | closePipe one type | closeInode one type =>
    have moved := openings_last ok one
    rw [add_comm] at moved
    exact (zero_add _).trans (moved.trans ((zero_add _).trans (add_zero _)).symm)
  | closeNone one type =>
    have moved := openings_last ok one
    rw [File.opening_none type, zero_add] at moved
    rw [Proc.goto_pc, Cont.pc_closing, moved]
    rfl
  | pipeclose => exact finished (Cont.pc_closing _) (File.opening_pipe typed)
  | pipecloseLast => exact @finished (.kfree _ _) _ rfl (File.opening_pipe typed)
  | kfree => exact same (Cont.pc_closing _)
  | iput => exact finished (Cont.pc_closing _) (File.opening_inode typed)
  | @openFields found f =>
    have bound := ok.bounded f (by rw [here.1.ref]; exact one_ne_zero)
    rw [Effect.apply, openFields, State.setFile_file, openings_fresh bound here.1.type,
      File.opening_inode (by cases found.device <;> simp)]
    exact (zero_add _).trans (add_assoc _ _ _)
  | @pipeFields rf wf pi => 
    have bound := ok.bounded rf (by rw [here.1.ref]; exact one_ne_zero)
    have bound' := ok.bounded wf (by rw [here.2.ref]; exact one_ne_zero)
    have different := ok.held_pair slot (congrArg Pc.held at_) here.1.ref
    rw [Effect.apply, pipeFields_file, openings_fresh bound', openings_fresh bound here.1.type,
      File.opening_pipe rfl, File.opening_pipe rfl]
    · simp only [Effect.finishes, Effect.opens, Proc.goto_pc, Pc.closing, pipeEnd]
      abel
    · rw [update_of_ne different.symm]
      exact here.2.type
  | _ => exact same rfl

include alive

theorem overProcs_pc {Item : Type} (items : Pc → Multiset Item) (quiet : items .user = 0) :
    items (state.proc p).pc +
        overProcs (fun proc => items proc.pc) (after state p effect other proc).proc =
      items proc.pc + overProcs (fun proc => items proc.pc) state.proc := by
  have first := overProcs_update (fun proc => items proc.pc) state.proc slot proc
  cases other with
  | none =>
    have after_proc : (after state p effect none proc).proc =
        update state.proc p proc := by
      rw [← Effect.apply_proc state effect]
      rfl
    rw [after_proc]
    exact first
  | some record =>
    have both := moves.otherSlot ok slot alive
    have second := overProcs_update (fun proc => items proc.pc)
      (update state.proc p proc) both.slot record.2
    have after_proc : (after state p effect (some record) proc).proc =
        update (update state.proc p proc) record.1 record.2 := by
      rw [← Effect.apply_proc state effect]
      rfl
    rw [update_of_ne both.different, both.pc, ok.idle _ both.notAlive, quiet, zero_add,
      zero_add] at second
    rw [after_proc, second]
    exact first

theorem live_after (typed : (state.proc p).pc.Typed) :
    effect.finishes + live (after state p effect other proc) =
      effect.opens state.opened + live state := by
  have mine := live_self ok slot moves typed
  have others := overProcs_pc ok slot alive moves Pc.closing rfl
  rw [live, live, after_file]
  generalize overProcs (fun proc => proc.pc.closing)
    (after state p effect other proc).proc = closing' at others
  apply add_left_cancel (a := (state.proc p).pc.closing)
  calc (state.proc p).pc.closing +
        (effect.finishes + (openings (effect.apply state).file + closing'))
      = effect.finishes + (openings (effect.apply state).file +
          ((state.proc p).pc.closing + closing')) := by abel
    _ = effect.finishes + (openings (effect.apply state).file + proc.pc.closing) +
          overProcs (fun proc => proc.pc.closing) state.proc := by
        rw [others]
        abel
    _ = (state.proc p).pc.closing + (effect.opens state.opened + (openings state.file +
          overProcs (fun proc => proc.pc.closing) state.proc)) := by
        rw [mine]
        abel

theorem typed_after (accounted : Accounted state) (q : Nat) :
    q < nproc → ((after state p effect other proc).proc q).pc.Typed := by
  apply proc_after ok slot alive moves fun q record => q < nproc → record.pc.Typed
  · intro _
    have typed := accounted.typed p slot
    have continued : ∀ cont : Cont, cont.pc.Typed := by
      intro cont
      cases cont <;> trivial
    generalize at_ : (state.proc p).pc = pc at moves typed
    cases moves with
    | refuse | wait => exact at_ ▸ typed
    | @start pc start => cases pc <;> trivial
    | closeMore | closeNone | pipeclose | kfree | iput => exact continued _
    | closePipe one type | closeInode one type => exact type
    | _ => trivial
  · intro q proc' record _
    subst record
    rw [(moves.otherSlot ok slot alive).pc]
    trivial
  · exact fun q _ _ => accounted.typed q

/-! ## The invariant after a step -/

variable (accounted : Accounted state)

include accounted

omit ok alive moves in
theorem inUse_pipePage (here : (state.proc p).pc = .pipePage rf wf pi) :
    (state.pipe pi).inUse = false := by
  have mine : pi ∈ overProcs (fun proc => proc.pc.pages) state.proc := by
    apply Multiset.mem_of_le (le_overProcs (fun proc => proc.pc.pages) state.proc slot)
    simp [here, Pc.pages]
  have one := Multiset.one_le_count_iff_mem.mpr mine
  have pages := accounted.pages pi
  have single := accounted.single pi
  cases used : (state.pipe pi).inUse with
  | false => rfl
  | true =>
    rw [used, if_pos rfl] at pages
    omega

theorem ends_after (pi : Nat) (writable : Bool) :
    (live (after state p effect other proc)).countP
        (fun opening => opening.pipe = some (pi, writable)) =
      if ((after state p effect other proc).pipe pi).isOpen writable then 1 else 0 := by
  have before := accounted.ends pi writable
  have change := congrArg (Multiset.countP fun opening => opening.pipe = some (pi, writable))
    (live_after ok slot alive moves (accounted.typed p slot))
  rw [Multiset.countP_add, Multiset.countP_add, before] at change
  rw [after_pipe]
  generalize (live (after state p effect other proc)).countP
    (fun opening => opening.pipe = some (pi, writable)) = count at change
  cases effect with
  | pipeFields rf wf pi' =>
    have unused : (state.pipe pi').inUse = false := by
      generalize at_ : (state.proc p).pc = pc at moves
      cases moves
      exact inUse_pipePage slot accounted at_
    simp only [Effect.finishes, Effect.opens, Multiset.countP_add, Multiset.countP_zero,
      countP_single, Option.some.injEq, Prod.mk.injEq] at change
    rw [isOpen_pipeFields]
    by_cases same : pi = pi'
    · rw [same, (state.pipe pi').isOpen_of_not_inUse unused] at change
      rw [if_pos same]
      cases writable <;> simpa using change
    · have different : ¬ pi' = pi := fun equal => same equal.symm
      simpa [same, different] using change
  | pipeclose ff =>
    simp only [Effect.finishes, Effect.opens, Multiset.countP_zero, countP_single,
      Option.some.injEq] at change
    rw [isOpen_pipeclose]
    by_cases same : (ff.pipe, ff.writable) = (pi, writable)
    · rw [if_pos same] at change ⊢
      split at change <;> simp_all
    · rw [if_neg same] at change ⊢
      simpa using change
  | openFields found f =>
    have same : ((Effect.openFields found f).apply state).pipe = state.pipe := rfl
    simpa [Effect.finishes, Effect.opens, countP_single, same] using change
  | iput ff =>
    have same : ((Effect.iput ff).apply state).pipe = state.pipe := rfl
    simpa [Effect.finishes, Effect.opens, countP_single, same] using change
  | quiet | count | uncount | last | kalloc | kfree =>
    exact (zero_add _).symm.trans (change.trans (zero_add _))

theorem numbers_after (number : Nat) :
    (live (after state p effect other proc)).countP (fun opening => opening.number = number) +
        (after state p effect other proc).closes number =
      if number < (after state p effect other proc).opened then 1 else 0 := by
  have before := accounted.numbers number
  have change := congrArg (Multiset.countP fun opening => opening.number = number)
    (live_after ok slot alive moves (accounted.typed p slot))
  rw [Multiset.countP_add, Multiset.countP_add] at change
  rw [after_closes, after_opened]
  generalize (live (after state p effect other proc)).countP
    (fun opening => opening.number = number) = count at change
  generalize (live state).countP (fun opening => opening.number = number) = count' at change before
  cases effect with
  | pipeFields rf wf pi =>
    simp only [Effect.finishes, Effect.opens, Multiset.countP_add, Multiset.countP_zero,
      countP_single] at change
    change count + state.closes number = if number < state.opened + 2 then 1 else 0
    split at before <;> split <;> split at change <;> split at change <;> omega
  | openFields found f =>
    simp only [Effect.finishes, Effect.opens, Multiset.countP_zero, countP_single] at change
    change count + state.closes number = if number < state.opened + 1 then 1 else 0
    split at before <;> split <;> split at change <;> omega
  | pipeclose ff | iput ff =>
    simp only [Effect.finishes, Effect.opens, Multiset.countP_zero, countP_single] at change
    change count + update state.closes ff.number (state.closes ff.number + 1) number =
      if number < state.opened then 1 else 0
    rw [← before, update_apply]
    by_cases same : number = ff.number
    · rw [if_pos same]
      rw [if_pos same.symm] at change
      rw [same]
      omega
    · rw [if_neg same]
      rw [if_neg fun equal => same equal.symm] at change
      omega
  | quiet | count | uncount | last | kalloc | kfree =>
    simp only [Effect.finishes, Effect.opens, Multiset.countP_zero, Nat.zero_add] at change
    rw [change]
    exact before

omit ok alive moves in
theorem inUse_pipeclose (here : (state.proc p).pc = .pipeclose ff cont) :
    (state.pipe ff.pipe).inUse = true := by
  have typed := accounted.typed p slot
  have mine : ⟨ff.number, some (ff.pipe, ff.writable)⟩ ∈ live state := by
    apply Multiset.mem_add.mpr
    right
    apply Multiset.mem_of_le (le_overProcs (fun proc => proc.pc.closing) state.proc slot)
    rw [here] at typed ⊢
    rw [Pc.closing, File.opening_pipe typed]
    exact Multiset.mem_singleton_self _
  have positive : 0 < (live state).countP
      (fun opening => opening.pipe = some (ff.pipe, ff.writable)) :=
    Multiset.countP_pos.mpr ⟨_, mine, rfl⟩
  rw [accounted.ends] at positive
  cases used : (state.pipe ff.pipe).inUse with
  | true => rfl
  | false =>
    rw [Pipe.isOpen_of_not_inUse _ used] at positive
    exact absurd positive (Nat.lt_irrefl 0)

theorem pages_after (pi : Nat) :
    (after state p effect other proc).allocs pi = (after state p effect other proc).frees pi +
        (overProcs (fun proc => proc.pc.pages) (after state p effect other proc).proc).count pi +
      if ((after state p effect other proc).pipe pi).inUse then 1 else 0 := by
  have before := accounted.pages pi
  have change := congrArg (Multiset.count pi) (overProcs_pc ok slot alive moves Pc.pages rfl)
  rw [Multiset.count_add, Multiset.count_add] at change
  rw [after_allocs, after_frees, after_pipe]
  generalize (overProcs (fun proc => proc.pc.pages)
    (after state p effect other proc).proc).count pi = count at change
  generalize (overProcs (fun proc => proc.pc.pages) state.proc).count pi = count' at change before
  have single : ∀ pi', ({pi'} : Multiset Nat).count pi = if pi = pi' then 1 else 0 :=
    fun pi' => Multiset.count_singleton pi pi'
  have unchanged : proc.pc.pages = (state.proc p).pc.pages →
      state.allocs pi = state.frees pi + count + if (state.pipe pi).inUse then 1 else 0 := by
    intro same
    rw [same] at change
    omega
  generalize at_ : (state.proc p).pc = pc at moves
  rw [at_] at unchanged change
  cases moves with
  | refuse | wait => exact unchanged (by rw [at_])
  | start start => exact unchanged (Pc.pages_of_isStart start)
  | closeMore | closeNone | iput => exact unchanged (Cont.pc_pages _)
  | @kalloc rf wf page free =>
    simp only [Proc.goto_pc, Pc.pages, Multiset.count_zero, single] at change
    change update state.allocs page (state.allocs page + 1) pi =
      state.frees pi + count + if (state.pipe pi).inUse then 1 else 0
    rw [update_apply]
    split at change
    · rename_i equal
      rw [if_pos equal, ← equal]
      omega
    · rename_i different
      rw [if_neg different]
      omega
  | @pipeFields rf wf page =>
    have unused := inUse_pipePage slot accounted at_
    simp only [Proc.goto_pc, Pc.pages, Multiset.count_zero, single] at change
    change state.allocs pi = state.frees pi + count +
      if (update state.pipe page ⟨true, true⟩ pi).inUse then 1 else 0
    rw [update_apply]
    split at change
    · rename_i equal
      rw [equal, unused] at before
      rw [if_pos equal, equal]
      have used : Pipe.inUse ⟨true, true⟩ = true := rfl
      rw [used, if_pos rfl]
      simp only [Bool.false_eq_true, if_false] at before
      omega
    · rename_i different
      rw [if_neg different]
      omega
  | @pipeclose ff cont stillOpen =>
    have used := inUse_pipeclose slot accounted at_
    have used' : ((state.pipe ff.pipe).close ff.writable).inUse = true := by
      rw [Pipe.inUse, Bool.or_eq_true]
      exact stillOpen
    have same := unchanged (Cont.pc_pages _)
    change state.allocs pi = state.frees pi + count + if (update state.pipe ff.pipe
      ((state.pipe ff.pipe).close ff.writable) pi).inUse then 1 else 0
    rw [update_apply]
    by_cases equal : pi = ff.pipe
    · rw [equal, used] at same
      rw [if_pos equal, equal, used']
      exact same
    · rw [if_neg equal]
      exact same
  | @pipecloseLast ff cont readopen writeopen =>
    have used := inUse_pipeclose slot accounted at_
    have unused : ((state.pipe ff.pipe).close ff.writable).inUse = false := by
      rw [Pipe.inUse, readopen, writeopen]
      rfl
    simp only [Proc.goto_pc, Pc.pages, Multiset.count_zero, single] at change
    change state.allocs pi = state.frees pi + count + if (update state.pipe ff.pipe
      ((state.pipe ff.pipe).close ff.writable) pi).inUse then 1 else 0
    rw [update_apply]
    split at change
    · rename_i equal
      rw [equal, used, if_pos rfl] at before
      rw [if_pos equal, unused, equal]
      simp only [Bool.false_eq_true, if_false]
      omega
    · rename_i different
      rw [if_neg different]
      omega
  | @kfree page cont =>
    rw [Proc.goto_pc, Cont.pc_pages] at change
    simp only [Pc.pages, Multiset.count_zero, single] at change
    change state.allocs pi = update state.frees page (state.frees page + 1) pi +
      count + if (state.pipe pi).inUse then 1 else 0
    rw [update_apply]
    split at change
    · rename_i equal
      rw [if_pos equal, ← equal]
      omega
    · rename_i different
      rw [if_neg different]
      omega
  | _ => exact unchanged rfl

omit ok slot alive in
theorem single_after (pi : Nat) :
    (after state p effect other proc).allocs pi ≤
      (after state p effect other proc).frees pi + 1 := by
  have before := accounted.single pi
  rw [after_allocs, after_frees]
  generalize (state.proc p).pc = pc at moves
  cases moves with
  | @kalloc rf wf page free =>
    change update state.allocs page (state.allocs page + 1) pi ≤ state.frees pi + 1
    rw [update_apply]
    split
    · rename_i equal
      rw [equal, free]
    · exact before
  | @kfree page cont =>
    change state.allocs pi ≤ update state.frees page (state.frees page + 1) pi + 1
    rw [update_apply]
    split
    · rename_i equal
      rw [← equal]
      omega
    · exact before
  | _ => exact before

theorem Accounted.after : Accounted (after state p effect other proc) where
  typed := typed_after ok slot alive moves accounted
  ends := ends_after ok slot alive moves accounted
  numbers := numbers_after ok slot alive moves accounted
  pages := pages_after ok slot alive moves accounted
  single := single_after moves accounted

end Step

theorem accounted_boot : Accounted boot := by
  have quiet : ∀ {Item : Type} (items : Pc → Multiset Item), items .user = 0 →
      overProcs (fun proc => items proc.pc) boot.proc = 0 :=
    fun items none => Finset.sum_eq_zero fun p _ => none
  have none : live boot = 0 := by
    rw [live, quiet Pc.closing rfl, add_zero]
    exact Finset.sum_eq_zero fun f _ => rfl
  refine ⟨fun _ _ => trivial, ?_, ?_, ?_, fun _ => Nat.zero_le _⟩
  · intro pi writable
    rw [none]
    cases writable <;> rfl
  · intro number
    rw [none]
    rfl
  · intro pi
    rw [quiet Pc.pages rfl]
    rfl

theorem ok_of_run (run : Steps step boot actions last) : Ok last ∧ Accounted last := by
  apply @Steps.invariant _ _ _ (fun state => Ok state ∧ Accounted state) _ _ _ _ run
  · exact ⟨ok_boot, accounted_boot⟩
  · intro state action next holds stepEq
    rcases step_moves stepEq with ⟨slot, alive, effect, other, proc, moves, rfl⟩
    exact ⟨holds.1.after slot alive moves, holds.2.after holds.1 slot alive moves⟩

end Xv6.Files
