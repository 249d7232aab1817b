import Xv6.File.References

/-! # The reference counts are right in every run -/

namespace Xv6.Files

open Function (update update_self update_of_ne)

variable {state : State} {p : Nat} {effect : Effect} {other : Option (Nat × Proc)} {proc : Proc}

/-- The slot that a step gives a record to, besides its own. -/
def slotOf (other : Option (Nat × Proc)) : Option Nat := other.map Prod.fst

/-! ## The state after a step -/

@[simp] theorem after_file : (after state p effect other proc).file = (effect.apply state).file := by
  cases other <;> rfl

@[simp] theorem after_pipe : (after state p effect other proc).pipe = (effect.apply state).pipe := by
  cases other <;> rfl

@[simp] theorem after_opened :
    (after state p effect other proc).opened = (effect.apply state).opened := by
  cases other <;> rfl

@[simp] theorem after_closes :
    (after state p effect other proc).closes = (effect.apply state).closes := by
  cases other <;> rfl

@[simp] theorem after_allocs :
    (after state p effect other proc).allocs = (effect.apply state).allocs := by
  cases other <;> rfl

@[simp] theorem after_frees :
    (after state p effect other proc).frees = (effect.apply state).frees := by
  cases other <;> rfl

theorem after_proc_self (apart : slotOf other ≠ some p) :
    (after state p effect other proc).proc p = proc := by
  cases other with
  | none => exact State.setProc_proc_self _ _ _
  | some record =>
    have different : p ≠ record.1 := fun equal => apart (congrArg some equal.symm)
    exact (State.setProc_proc_of_ne different _ _).trans (State.setProc_proc_self _ _ _)

variable {proc' : Proc} {q : Nat}

theorem after_proc_other : (after state p effect (some (q, proc')) proc).proc q = proc' :=
  State.setProc_proc_self _ _ _

theorem after_proc_of_ne (different : q ≠ p) (apart : slotOf other ≠ some q) :
    (after state p effect other proc).proc q = state.proc q := by
  have mine : ((effect.apply state).setProc p proc).proc q = state.proc q := by
    rw [State.setProc_proc_of_ne different, Effect.apply_proc]
  cases other with
  | none => exact mine
  | some record =>
    have notRecord : q ≠ record.1 := fun equal => apart (congrArg some equal.symm)
    exact (State.setProc_proc_of_ne notRecord _ _).trans mine

/-! ## The counts -/

variable {f : Nat}

section Step

variable (ok : Ok state) (slot : p < nproc) (alive : (state.proc p).state = .alive)
  (moves : Moves state p (state.proc p).pc effect other proc)

include ok slot alive moves

theorem apart_of_moves : slotOf other ≠ some p := by
  cases other with
  | none =>
    intro equal
    cases equal
  | some record =>
    intro equal
    cases equal
    exact (moves.otherSlot ok slot alive).different rfl

theorem overProcs_owns :
    effect.drops + overProcs owns (after state p effect other proc).proc =
      effect.gains + overProcs owns state.proc := by
  cases other with
  | none =>
    have change := overProcs_update owns state.proc slot proc
    have mine := moves.owns_self (ok.pcs p slot)
    have after_proc : (after state p effect none proc).proc =
        update state.proc p proc := by
      rw [← Effect.apply_proc state effect]
      rfl
    apply add_left_cancel (a := owns (state.proc p))
    rw [after_proc, add_left_comm, change, ← add_assoc, mine, add_left_comm, add_assoc]
  | some record =>
    have both := moves.otherSlot ok slot alive
    have first := overProcs_update owns state.proc slot proc
    have second := overProcs_update owns (update state.proc p proc) both.slot record.2
    rw [update_of_ne both.different] at second
    have after_proc : (after state p effect (some record) proc).proc =
        update (update state.proc p proc) record.1 record.2 := by
      rw [← Effect.apply_proc state effect]
      rfl
    have quiet := both.quiet
    subst quiet
    apply congrArg (0 + ·)
    apply add_left_cancel (a := owns (state.proc p) + owns (state.proc record.1))
    rw [after_proc, add_assoc, second, add_left_comm, first, ← both.owns]
    exact (add_left_comm _ _ _).trans (add_assoc _ _ _).symm

theorem refs_after (f : Nat) :
    ((after state p effect other proc).file f).ref =
      (overProcs owns (after state p effect other proc).proc).count f := by
  have counts := congrArg (Multiset.count f) (overProcs_owns ok slot alive moves)
  rw [Multiset.count_add, Multiset.count_add, ← ok.refs] at counts
  have file := moves.ref_apply f
  rw [after_file]
  omega

omit alive in
theorem touched (inside : f ∈ effect.files) :
    f ∈ owns (state.proc p) ∨ (state.file f).ref = 0 ∧ f < nfile := by
  have here := ok.pcs p slot
  generalize at_ : (state.proc p).pc = pc at moves here
  have held : ∀ {g}, g ∈ pc.held → g ∈ owns (state.proc p) := fun member =>
    owned_of_held (at_ ▸ member)
  have named : ∀ {fd g}, Named (state.proc p) fd g → pc.holds fd = true →
      g ∈ owns (state.proc p) := fun naming holds => naming.owned (at_ ▸ holds)
  have closing : ∀ {g cont}, pc = .fileclose g cont → g ∈ owns (state.proc p) := by
    intro g cont equal
    cases cont with
    | done | fileclose =>
      apply held
      simp [equal, Pc.held]
    | exit fd =>
      rw [equal] at here
      exact named here.1 (equal ▸ rfl)
  cases moves with
  | openAlloc bound free | pipeAlloc bound free | pipeAllocSecond bound free =>
    rw [Multiset.mem_singleton.mp inside]
    exact .inr ⟨free, bound⟩
  | openFields =>
    rw [Multiset.mem_singleton.mp inside]
    rcases here.2 with ⟨fd, naming⟩
    exact .inl (named naming rfl)
  | pipeFields => exact .inl (held inside)
  | dup positive =>
    rw [Multiset.mem_singleton.mp inside]
    rcases here.2 with ⟨old, different, naming⟩
    exact .inl (named naming (bne_iff_ne.mpr different))
  | closeMore more | closePipe more | closeInode more | closeNone more =>
    rw [Multiset.mem_singleton.mp inside]
    exact .inl (closing rfl)
  | forkDup bound naming positive =>
    rw [Multiset.mem_singleton.mp inside]
    exact .inl (named ⟨bound, naming⟩ rfl)
  | _ => cases inside

end Step

/-! ## What the other processes know -/

/-- The files that a process has from `filealloc` and has not used yet. -/
def Pc.fresh : Pc → Multiset Nat
  | .openFile _ f | .openStored _ f | .pipeFile f => {f}
  | .pipeFiles rf wf | .pipePage rf wf _ => {rf, wf}
  | _ => 0

theorem Pc.Ok.fresh_file {pc : Pc} (ok : pc.Ok state proc) (inside : f ∈ pc.fresh) :
    Fresh (state.file f) := by
  cases pc with
  | openFile | pipeFile =>
    rw [Multiset.mem_singleton.mp inside]
    exact ok
  | openStored =>
    rw [Multiset.mem_singleton.mp inside]
    exact ok.1
  | pipeFiles | pipePage =>
    rw [Pc.fresh, Multiset.insert_eq_cons, Multiset.mem_cons, Multiset.mem_singleton] at inside
    rcases inside with equal | equal
    · exact equal ▸ ok.1
    · exact equal ▸ ok.2
  | _ => cases inside

theorem Pc.Ok.fresh_owned (ok : proc.pc.Ok state proc) (inside : f ∈ proc.pc.fresh) :
    f ∈ owns proc := by
  generalize here : proc.pc = pc at ok inside
  have held : f ∈ pc.held → f ∈ owns proc := fun member => owned_of_held (here ▸ member)
  cases pc with
  | openFile | pipeFile | pipeFiles | pipePage => exact held inside
  | openStored =>
    rw [Multiset.mem_singleton.mp inside]
    rcases ok.2 with ⟨fd, named⟩
    exact named.owned (here ▸ rfl)
  | _ => cases inside

theorem Pc.Ok.frame {next : State} {pc : Pc} (ok : pc.Ok state proc)
    (files : ∀ f ∈ pc.fresh, next.file f = state.file f)
    (child : ∀ np, pc.child = some np → next.proc np = state.proc np) : pc.Ok next proc := by
  have embryo : ∀ {np fd}, pc.child = some np → Embryo state.proc np fd →
      Embryo next.proc np fd := by
    intro np fd mine holds
    have same := child np mine
    exact ⟨holds.slot, same ▸ holds.state, same ▸ holds.unset⟩
  have fresh : ∀ {f}, f ∈ pc.fresh → Fresh (next.file f) := by
    intro f inside
    rw [files f inside]
    exact ok.fresh_file inside
  cases pc with
  | openFile | pipeFile => exact fresh (Multiset.mem_singleton_self _)
  | openStored => exact ⟨fresh (Multiset.mem_singleton_self _), ok.2⟩
  | pipeFiles | pipePage =>
    constructor <;> exact fresh (by simp [Pc.fresh])
  | forkCopy | forkDup => exact embryo rfl ok
  | forkStore => exact ⟨embryo rfl ok.1, ok.2⟩
  | fileclose f cont => cases cont <;> exact ok
  | _ => exact ok

variable {np : Nat}

theorem Pc.Ok.embryo {pc : Pc} (ok : pc.Ok state proc) (mine : pc.child = some np) :
    ∃ fd, Embryo state.proc np fd := by
  cases pc with
  | forkCopy | forkDup =>
    cases mine
    exact ⟨_, ok⟩
  | forkStore =>
    cases mine
    exact ⟨_, ok.1⟩
  | _ => cases mine

/-! ## What the process knows after its step -/

variable {fd : Nat}

theorem Cleared.succ (cleared : Cleared proc fd) (free : proc.ofile fd = none) :
    Cleared proc (fd + 1) := by
  intro other before
  rcases Nat.lt_succ_iff_lt_or_eq.mp before with lower | equal
  · exact cleared other lower
  · exact equal ▸ free

theorem Cleared.store (cleared : Cleared proc fd) : Cleared (proc.store fd none) (fd + 1) := by
  apply Cleared.succ
  · intro other before
    rw [Proc.store_ofile_of_ne (Nat.ne_of_lt before)]
    exact cleared other before
  · exact Proc.store_ofile_self _ _ _

theorem Embryo.mono {table : Nat → Proc} (embryo : Embryo table np fd) (later : fd ≤ fd') :
    Embryo table np fd' :=
  ⟨embryo.slot, embryo.state, fun other inside above =>
    embryo.unset other inside (Nat.le_trans later above)⟩

theorem Cont.Ok.pc {cont : Cont} (ok : cont.Ok proc) {pc : Pc} :
    cont.pc.Ok state (proc.goto pc) := by
  cases cont with
  | done | fileclose => trivial
  | exit fd => exact ok

theorem Pc.Ok.cont {cont : Cont} (ok : (Pc.fileclose f cont).Ok state proc) : cont.Ok proc := by
  cases cont with
  | done | fileclose => trivial
  | exit fd => exact ⟨ok.1.1, ok.2⟩

theorem fresh_count (ok : Ok state) (free : (state.file f).ref = 0) :
    Fresh (((Effect.count f).apply state).file f) := by
  have counted : ((Effect.count f).apply state).file f = { state.file f with ref := 1 } := by
    rw [Effect.apply, free, State.setRef, State.setFile_file, update_self]
  rw [counted]
  exact ⟨ok.closed f free, rfl⟩

section Step

variable (ok : Ok state) (slot : p < nproc) (alive : (state.proc p).state = .alive)
  (moves : Moves state p (state.proc p).pc effect other proc)

include ok slot alive moves

theorem ok_self : proc.pc.Ok (after state p effect other proc) proc := by
  have here := ok.pcs p slot
  generalize at_ : (state.proc p).pc = pc at moves here
  have embryo : ∀ {np fd effect proc}, Embryo state.proc np fd →
      Embryo (after state p effect none proc).proc np fd := by
    intro np fd effect proc holds
    have different : np ≠ p := by
      intro equal
      rw [← equal, holds.state] at alive
      cases alive
    have same : (after state p effect none proc).proc np = state.proc np :=
      after_proc_of_ne different (by intro equal; cases equal)
    exact ⟨holds.slot, same ▸ holds.state, same ▸ holds.unset⟩
  cases moves with
  | refuse | wait =>
    rw [at_]
    trivial
  | @start pc start =>
    cases pc with
    | exitLoop fd =>
      intro other before
      cases fd with
      | zero => cases before
      | succ fd => cases start
    | openFound | pipeStart | forkStart => trivial
    | _ => cases start
  | @dupStore f fd old bound named inside free =>
    have different : old ≠ fd := by
      intro equal
      rw [equal, free] at named
      cases named
    refine ⟨⟨inside, Proc.store_ofile_self _ _ _⟩, old, different, bound, ?_⟩
    exact (Proc.store_ofile_of_ne different _ _).trans named
  | openAlloc bound free | pipeAlloc bound free => exact fresh_count ok free
  | openStore inside free =>
    exact ⟨here, _, inside, Proc.store_ofile_self _ _ _⟩
  | @pipeAllocSecond rf wf bound free =>
    have different : rf ≠ wf := by
      intro equal
      rw [← equal, here.ref] at free
      cases free
    have first : ((Effect.count wf).apply state).file rf = state.file rf :=
      update_of_ne different _ _
    exact ⟨first ▸ here, fresh_count ok free⟩
  | kalloc | pipecloseLast => exact here
  | pipeStore inside free => exact ⟨inside, Proc.store_ofile_self _ _ _⟩
  | @pipeStoreSecond rf wf fd0 fd1 inside free =>
    have different : fd0 ≠ fd1 := by
      intro equal
      rw [← equal, here.2] at free
      cases free
    refine ⟨⟨here.1, ?_⟩, ⟨inside, Proc.store_ofile_self _ _ _⟩, different⟩
    exact (Proc.store_ofile_of_ne different _ _).trans here.2
  | closeMore more | closeNone more => exact here.cont.pc
  | closePipe one type | closeInode one type => exact here.cont
  | pipeclose | kfree | iput => exact here.pc
  | allocproc inside unused =>
    refine ⟨inside, ?_, ?_⟩
    · rw [after_proc_other]
      rfl
    · intro fd bound _
      rw [after_proc_other]
      exact ok.empty _ (.inl unused) fd bound
  | uvmcopy => exact embryo here
  | forkSkip => exact (embryo here).mono (Nat.le_succ _)
  | forkDup inside named positive => exact ⟨embryo here, inside⟩
  | @forkStore np fd f =>
    refine ⟨here.1.slot, ?_, ?_⟩
    · rw [after_proc_other]
      exact here.1.state
    · intro other inside above
      rw [after_proc_other, Proc.store_ofile_of_ne (by omega)]
      exact here.1.unset other inside (by omega)
  | exitSkip free => exact here.succ free
  | exitClose inside named => exact ⟨⟨inside, named⟩, here⟩
  | exitClear => exact here.2.store
  | _ => trivial

theorem state_self : proc.state = .alive ∨
    proc.state = .zombie ∧ proc.pc = .user ∧ Cleared proc nofile := by
  have here := ok.pcs p slot
  generalize at_ : (state.proc p).pc = pc at moves here
  cases moves with
  | exitDone outside =>
    exact .inr ⟨rfl, rfl, fun fd inside => here fd (Nat.lt_of_lt_of_le inside outside)⟩
  | _ => exact .inl alive

omit ok slot alive in
theorem child_self (mine : proc.pc.child = some np) :
    (state.proc p).pc.child = some np ∨ (state.proc np).state = .unused := by
  generalize at_ : (state.proc p).pc = pc at moves
  have continued : ∀ cont : Cont, cont.pc.child = none := by
    intro cont
    cases cont <;> rfl
  cases moves with
  | refuse | wait => exact .inl (at_ ▸ mine)
  | @start pc start =>
    cases pc with
    | forkCopy | forkDup | forkStore => cases start
    | _ => cases mine
  | closeMore | closeNone | pipeclose | kfree | iput =>
    rw [Proc.goto_pc, continued] at mine
    cases mine
  | allocproc inside unused =>
    cases mine
    exact .inr unused
  | uvmcopy | forkSkip | forkDup | forkStore => exact .inl mine
  | _ => cases mine

omit alive in
/-- The other slot of a step that is in use is the one that the process fills; it is
empty when it is given back. -/
theorem other_self (record : other = some (q, proc')) :
    ((state.proc q).state = .used → (state.proc p).pc.child = some q) ∧
      (proc'.state = .unused ∨ proc'.state = .zombie → Cleared proc' nofile) := by
  have here := ok.pcs p slot
  subst record
  generalize at_ : (state.proc p).pc = pc at moves here
  cases moves with
  | wait inside zombie =>
    refine ⟨fun used => ?_, fun _ => ok.empty q (.inr zombie)⟩
    rw [zombie] at used
    cases used
  | allocproc inside unused =>
    refine ⟨fun used => ?_, fun state => ?_⟩
    · rw [unused] at used
      cases used
    · rcases state with equal | equal <;> cases equal
  | uvmcopyFail =>
    exact ⟨fun _ => rfl, fun _ fd inside => here.unset fd inside (Nat.zero_le _)⟩
  | forkDone =>
    refine ⟨fun _ => rfl, fun state => ?_⟩
    rcases state with equal | equal <;> cases equal
  | forkStore =>
    refine ⟨fun _ => rfl, fun state => ?_⟩
    rw [Proc.store_state, here.1.state] at state
    rcases state with equal | equal <;> cases equal

/-- The records after a step: that of the process, that of the other slot, and the
ones that have not changed. -/
theorem proc_after (Holds : Nat → Proc → Prop) (mine : Holds p proc)
    (theirs : ∀ q proc', other = some (q, proc') → Holds q proc')
    (rest : ∀ q, q ≠ p → slotOf other ≠ some q → Holds q (state.proc q)) (q : Nat) :
    Holds q ((after state p effect other proc).proc q) := by
  have apart := apart_of_moves ok slot alive moves
  by_cases self : q = p
  · rw [self, after_proc_self apart]
    exact mine
  · cases other with
    | none =>
      have none : slotOf none ≠ some q := by
        intro equal
        cases equal
      rw [after_proc_of_ne self none]
      exact rest q self none
    | some record =>
      by_cases same : record.1 = q
      · rw [← same, after_proc_other]
        exact theirs record.1 record.2 rfl
      · have different : slotOf (some record) ≠ some q := fun equal => same (Option.some.inj equal)
        rw [after_proc_of_ne self different]
        exact rest q self different

theorem ok_others (slot' : q < nproc) (different : q ≠ p) :
    (state.proc q).pc.Ok (after state p effect other proc) (state.proc q) := by
  have theirs := ok.pcs q slot'
  apply theirs.frame
  · intro f inside
    rw [after_file]
    apply Effect.apply_file_of_notMem
    intro member
    have one := (theirs.fresh_file inside).ref
    rcases touched ok slot moves member with owned | ⟨free, _⟩
    · have two := ok.two_le_ref slot' slot different (theirs.fresh_owned inside) owned
      omega
    · omega
  · intro np child
    rcases theirs.embryo child with ⟨fd, embryo⟩
    apply after_proc_of_ne
    · intro equal
      rw [← equal, embryo.state] at alive
      cases alive
    · intro equal
      cases other with
      | none => cases equal
      | some record =>
        cases equal
        have mine := (other_self ok slot moves rfl).1 embryo.state
        exact different (ok.children _ slot' _ slot _ child mine)

omit alive in
theorem closed_after (f : Nat) (zero : ((after state p effect other proc).file f).ref = 0) :
    ((after state p effect other proc).file f).type = .none := by
  have here := ok.pcs p slot
  rw [after_file] at zero ⊢
  by_cases inside : f ∈ effect.files
  · have counts := moves.ref_apply f
    rw [zero] at counts
    generalize (state.proc p).pc = pc at moves here
    -- a file that is written keeps a reference, unless it was the last one
    cases moves with
    | openAlloc | pipeAlloc | pipeAllocSecond | dup | forkDup =>
      rw [Multiset.mem_singleton.mp inside, Effect.apply, setRef_ref, if_pos rfl] at zero
      cases zero
    | closeMore more =>
      rw [Multiset.mem_singleton.mp inside, Effect.apply, setRef_ref, if_pos rfl] at zero
      omega
    | closePipe | closeInode | closeNone =>
      rw [Multiset.mem_singleton.mp inside, Effect.apply, State.setFile_file, update_self]
    | openFields | pipeFields =>
      have fresh := here.fresh_file inside
      rw [fresh.ref] at counts
      cases counts
    | _ => cases inside
  · rw [effect.apply_file_of_notMem inside] at zero ⊢
    exact ok.closed f zero

omit alive in
theorem bounded_after (f : Nat) (positive : ((after state p effect other proc).file f).ref ≠ 0) :
    f < nfile := by
  rw [after_file] at positive
  by_cases inside : f ∈ effect.files
  · rcases touched ok slot moves inside with owned | ⟨_, bound⟩
    · exact ok.bounded f (Nat.ne_of_gt (ok.ref_pos slot owned))
    · exact bound
  · rw [effect.apply_file_of_notMem inside] at positive
    exact ok.bounded f positive

theorem idle_after (q : Nat) : ((after state p effect other proc).proc q).state ≠ .alive →
    ((after state p effect other proc).proc q).pc = .user := by
  apply proc_after ok slot alive moves fun _ record => record.state ≠ .alive → record.pc = .user
  · intro notAlive
    rcases state_self ok slot alive moves with equal | ⟨_, user, _⟩
    · exact absurd equal notAlive
    · exact user
  · intro q proc' record _
    subst record
    exact (moves.otherSlot ok slot alive).pc
  · exact fun q _ _ => ok.idle q

theorem empty_after (q : Nat) : ((after state p effect other proc).proc q).state = .unused ∨
      ((after state p effect other proc).proc q).state = .zombie →
    Cleared ((after state p effect other proc).proc q) nofile := by
  apply proc_after ok slot alive moves fun _ record =>
    record.state = .unused ∨ record.state = .zombie → Cleared record nofile
  · intro ended
    rcases state_self ok slot alive moves with equal | ⟨_, _, cleared⟩
    · rw [equal] at ended
      rcases ended with equal | equal <;> cases equal
    · exact cleared
  · exact fun q proc' record => (other_self ok slot moves record).2
  · exact fun q _ _ => ok.empty q

theorem pcs_after (q : Nat) : q < nproc →
    ((after state p effect other proc).proc q).pc.Ok (after state p effect other proc)
      ((after state p effect other proc).proc q) := by
  apply proc_after ok slot alive moves fun q record =>
    q < nproc → record.pc.Ok (after state p effect other proc) record
  · exact fun _ => ok_self ok slot alive moves
  · intro q proc' record _
    subst record
    rw [(moves.otherSlot ok slot alive).pc]
    trivial
  · exact fun q different _ slot' => ok_others ok slot alive moves slot' different

theorem child_after (q np : Nat) :
    ((after state p effect other proc).proc q).pc.child = some np →
      (state.proc q).pc.child = some np ∨ q = p ∧ (state.proc np).state = .unused := by
  apply proc_after ok slot alive moves fun q record => record.pc.child = some np →
    (state.proc q).pc.child = some np ∨ q = p ∧ (state.proc np).state = .unused
  · intro mine
    rcases child_self moves mine with before | unused
    · exact .inl before
    · exact .inr ⟨rfl, unused⟩
  · intro q proc' record theirs
    subst record
    rw [(moves.otherSlot ok slot alive).pc] at theirs
    cases theirs
  · exact fun q _ _ => .inl

theorem children_after (q : Nat) (slot₁ : q < nproc) (q' : Nat) (slot₂ : q' < nproc) (np : Nat)
    (first : ((after state p effect other proc).proc q).pc.child = some np)
    (second : ((after state p effect other proc).proc q').pc.child = some np) : q = q' := by
  have used : ∀ r < nproc, (state.proc r).pc.child = some np →
      (state.proc np).state = .used := by
    intro r slot' child
    rcases (ok.pcs r slot').embryo child with ⟨fd, embryo⟩
    exact embryo.state
  rcases child_after ok slot alive moves q np first with before | ⟨self, unused⟩
  · rcases child_after ok slot alive moves q' np second with before' | ⟨self', unused⟩
    · exact ok.children q slot₁ q' slot₂ np before before'
    · rw [used q slot₁ before] at unused
      cases unused
  · rcases child_after ok slot alive moves q' np second with before' | ⟨self', _⟩
    · rw [used q' slot₂ before'] at unused
      cases unused
    · rw [self, self']

theorem Ok.after : Ok (after state p effect other proc) where
  refs := refs_after ok slot alive moves
  closed := closed_after ok slot moves
  bounded := bounded_after ok slot moves
  idle := idle_after ok slot alive moves
  empty := empty_after ok slot alive moves
  pcs := pcs_after ok slot alive moves
  children := children_after ok slot alive moves

end Step

theorem ok_boot : Ok boot where
  refs := by
    intro f
    have none : ∀ p, owns (boot.proc p) = 0 := by
      intro p
      exact (add_zero _).trans (Finset.sum_eq_zero fun fd _ => rfl)
    have empty : overProcs owns boot.proc = 0 := Finset.sum_eq_zero fun p _ => none p
    rw [empty]
    rfl
  closed := fun _ _ => rfl
  bounded := fun _ positive => absurd rfl positive
  idle := fun _ _ => rfl
  empty := fun _ _ _ _ => rfl
  pcs := fun _ _ => trivial
  children := by
    intro p _ q _ np child
    cases child

end Xv6.Files
