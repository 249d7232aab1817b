import Xv6.File.Accounting
import Mathlib.Algebra.BigOperators.Group.Finset.Piecewise
import Mathlib.Algebra.BigOperators.Group.Finset.Sigma

/-! # Open-file accounting -/

namespace Xv6.Files

/-- The number of descriptors, of all processes, that hold a reference to a file. -/
def slotsHolding (state : State) (f : Nat) : Nat :=
  ((procSlots ×ˢ fdSlots).filter fun slot =>
    (state.proc slot.1).pc.holds slot.2 = true ∧ (state.proc slot.1).ofile slot.2 = some f).card

/-- The number of references to a file that running calls hold. -/
def heldByCalls (state : State) (f : Nat) : Nat :=
  ∑ p ∈ procSlots, (state.proc p).pc.held.count f

/-- A file is one end of a pipe. -/
def File.IsEnd (file : File) (pi : Nat) (writable : Bool) : Prop :=
  file.type = .pipe ∧ file.pipe = pi ∧ file.writable = writable

/-- A file is open: it is in the file table with a reference, or a running
`fileclose` has a copy of it and has not yet called `pipeclose` or `iput`. -/
def IsOpen (state : State) (Which : File → Prop) : Prop :=
  (∃ f, 0 < (state.file f).ref ∧ Which (state.file f)) ∨
    ∃ p < nproc, ∃ ff cont,
      ((state.proc p).pc = .pipeclose ff cont ∨ (state.proc p).pc = .iput ff cont) ∧ Which ff

/-- The file with a number. -/
def File.Is (file : File) (number : Nat) : Prop := file.type ≠ .none ∧ file.number = number

/-- A call has the page of a pipe: `pipealloc` after its `kalloc`, or `pipeclose`
before its `kfree`. -/
def InHand (state : State) (pi : Nat) : Prop :=
  ∃ p < nproc, (∃ rf wf, (state.proc p).pc = .pipePage rf wf pi) ∨
    ∃ cont, (state.proc p).pc = .kfree pi cont

variable {state : State}

/-! ## The counts -/

theorem count_slotRef (proc : Proc) (fd f : Nat) : (slotRef proc fd).count f =
    if proc.pc.holds fd = true ∧ proc.ofile fd = some f then 1 else 0 := by
  rw [slotRef]
  cases holds : proc.pc.holds fd with
  | false => rfl
  | true =>
    cases named : proc.ofile fd with
    | none => rfl
    | some g =>
      rw [if_pos rfl, fdFile, Option.elim_some, Multiset.count_singleton]
      by_cases same : f = g
      · rw [if_pos same, if_pos ⟨rfl, congrArg some same.symm⟩]
      · rw [if_neg same, if_neg fun equal => same (Option.some.inj equal.2).symm]

theorem count_descriptors (state : State) (f : Nat) :
    ∑ p ∈ procSlots, (descriptors (state.proc p)).count f = slotsHolding state f := by
  rw [slotsHolding, Finset.card_filter, Finset.sum_product]
  apply Finset.sum_congr rfl
  intro p _
  have counts : (descriptors (state.proc p)).count f =
      ∑ fd ∈ fdSlots, (slotRef (state.proc p) fd).count f := Multiset.count_sum'
  rw [counts]
  exact Finset.sum_congr rfl fun fd _ => count_slotRef (state.proc p) fd f

theorem count_owns (state : State) (f : Nat) :
    (overProcs owns state.proc).count f = slotsHolding state f + heldByCalls state f := by
  rw [overProcs, Multiset.count_sum', ← count_descriptors, heldByCalls, ← Finset.sum_add_distrib]
  exact Finset.sum_congr rfl fun p _ => Multiset.count_add _ _ _

/-! ## What is open -/

variable {opening : Opening}

theorem mem_live : opening ∈ live state ↔
    (∃ f < nfile, opening ∈ (state.file f).opening) ∨
      ∃ p < nproc, opening ∈ (state.proc p).pc.closing := by
  rw [live, Multiset.mem_add, openings, overProcs, Multiset.mem_sum, Multiset.mem_sum]
  simp only [mem_fileSlots, mem_procSlots]

theorem closing_cases {pc : Pc} (member : opening ∈ pc.closing) :
    ∃ ff cont, (pc = .pipeclose ff cont ∨ pc = .iput ff cont) ∧ opening ∈ ff.opening := by
  cases pc with
  | pipeclose ff cont => exact ⟨ff, cont, .inl rfl, member⟩
  | iput ff cont => exact ⟨ff, cont, .inr rfl, member⟩
  | _ => cases member

theorem exists_live_iff (ok : Ok state) {Holds : Opening → Prop} {Which : File → Prop}
    (same : ∀ file : File, (∃ opening ∈ file.opening, Holds opening) ↔ Which file) :
    (∃ opening ∈ live state, Holds opening) ↔ IsOpen state Which := by
  constructor
  · intro found
    rcases found with ⟨opening, member, holds⟩
    rcases mem_live.mp member with ⟨f, bound, inside⟩ | ⟨p, slot, inside⟩
    · left
      refine ⟨f, Nat.pos_of_ne_zero fun zero => ?_, (same _).mp ⟨opening, inside, holds⟩⟩
      rw [File.opening_none (ok.closed f zero)] at inside
      cases inside
    · right
      rcases closing_cases inside with ⟨ff, cont, here, inside⟩
      exact ⟨p, slot, ff, cont, here, (same ff).mp ⟨opening, inside, holds⟩⟩
  · intro isOpen
    rcases isOpen with ⟨f, positive, which⟩ | ⟨p, slot, ff, cont, here, which⟩
    · rcases (same _).mpr which with ⟨opening, inside, holds⟩
      have bound := ok.bounded f (Nat.ne_of_gt positive)
      exact ⟨opening, mem_live.mpr (.inl ⟨f, bound, inside⟩), holds⟩
    · rcases (same _).mpr which with ⟨opening, inside, holds⟩
      refine ⟨opening, mem_live.mpr (.inr ⟨p, slot, ?_⟩), holds⟩
      rcases here with here | here <;> rw [here] <;> exact inside

theorem isEnd_iff (pi : Nat) (writable : Bool) (file : File) :
    (∃ opening ∈ file.opening, opening.pipe = some (pi, writable)) ↔ file.IsEnd pi writable := by
  rw [File.opening, File.IsEnd]
  cases type : file.type <;> simp

theorem is_iff (number : Nat) (file : File) :
    (∃ opening ∈ file.opening, opening.number = number) ↔ file.Is number := by
  rw [File.opening, File.Is]
  cases type : file.type <;> simp

theorem inHand_iff (pi : Nat) :
    pi ∈ overProcs (fun proc => proc.pc.pages) state.proc ↔ InHand state pi := by
  rw [overProcs, Multiset.mem_sum]
  simp only [mem_procSlots, InHand]
  have here : ∀ pc : Pc, pi ∈ pc.pages ↔
      (∃ rf wf, pc = .pipePage rf wf pi) ∨ ∃ cont, pc = .kfree pi cont := by
    intro pc
    cases pc <;> simp [Pc.pages, eq_comm]
  simp only [here]

/-! ## The result -/

/-- The account of a state. -/
structure Accounts (state : State) : Prop where
  /-- The count of a file is the number of references to it. -/
  refs : ∀ f, (state.file f).ref = slotsHolding state f + heldByCalls state f
  closed : ∀ f, (state.file f).ref = 0 → (state.file f).type = .none
  /-- An end of a pipe is open exactly while a file is that end. -/
  ends : ∀ pi writable, (state.pipe pi).isOpen writable = true ↔
    IsOpen state fun file => file.IsEnd pi writable
  /-- The page of a pipe has been freed as often as it was allocated, except while
  an end is open or a call has the page. -/
  pages : ∀ pi, state.allocs pi = state.frees pi ∨ state.allocs pi = state.frees pi + 1
  allocated : ∀ pi, state.allocs pi = state.frees pi + 1 ↔
    (state.pipe pi).inUse = true ∨ InHand state pi
  /-- The page is given to `kfree` when both ends are closed. -/
  freed : ∀ p < nproc, ∀ pi cont, (state.proc p).pc = .kfree pi cont →
    (state.pipe pi).readopen = false ∧ (state.pipe pi).writeopen = false
  /-- A file with a reference is not an end of a pipe that has been freed. -/
  valid : ∀ f, 0 < (state.file f).ref → (state.file f).type = .pipe →
    state.allocs (state.file f).pipe = state.frees (state.file f).pipe + 1 ∧
      (state.pipe (state.file f).pipe).isOpen (state.file f).writable = true
  /-- The last `pipeclose` or `iput` of a file has been made once, or the file is
  still open and it has not been made. -/
  closes : ∀ number < state.opened,
    state.closes number = 1 ∧ ¬ IsOpen state (fun file => file.Is number) ∨
      state.closes number = 0 ∧ IsOpen state fun file => file.Is number
  unopened : ∀ number, state.opened ≤ number → state.closes number = 0

theorem isOpen_end_iff (ok : Ok state) (accounted : Accounted state) (pi : Nat)
    (writable : Bool) : (state.pipe pi).isOpen writable = true ↔
      IsOpen state fun file => file.IsEnd pi writable := by
  rw [← exists_live_iff ok (isEnd_iff pi writable), ← Multiset.countP_pos, accounted.ends]
  cases (state.pipe pi).isOpen writable <;> simp

theorem Pipe.inUse_of_isOpen {pi : Pipe} (isOpen : pi.isOpen writable = true) :
    pi.inUse = true := by
  cases used : pi.inUse with
  | true => rfl
  | false =>
    rw [pi.isOpen_of_not_inUse used] at isOpen
    cases isOpen

theorem allocated_iff (accounted : Accounted state) (pi : Nat) :
    state.allocs pi = state.frees pi + 1 ↔ (state.pipe pi).inUse = true ∨ InHand state pi := by
  have pages := accounted.pages pi
  have single := accounted.single pi
  rw [← inHand_iff, ← Multiset.one_le_count_iff_mem]
  cases used : (state.pipe pi).inUse with
  | true =>
    rw [used, if_pos rfl] at pages
    simp only [true_or, iff_true]
    omega
  | false =>
    simp only [used, Bool.false_eq_true, if_false, false_or] at pages ⊢
    omega

theorem not_inUse_of_kfree (accounted : Accounted state) (slot : p < nproc)
    (here : (state.proc p).pc = .kfree pi cont) : (state.pipe pi).inUse = false := by
  have pages := accounted.pages pi
  have single := accounted.single pi
  have inHand : pi ∈ overProcs (fun proc => proc.pc.pages) state.proc :=
    (inHand_iff pi).mpr ⟨p, slot, .inr ⟨cont, here⟩⟩
  have one := Multiset.one_le_count_iff_mem.mpr inHand
  cases used : (state.pipe pi).inUse with
  | false => rfl
  | true =>
    rw [used, if_pos rfl] at pages
    omega

theorem closes_iff (ok : Ok state) (accounted : Accounted state) (opened : number < state.opened) :
    state.closes number = 1 ∧ ¬ IsOpen state (fun file => file.Is number) ∨
      state.closes number = 0 ∧ IsOpen state fun file => file.Is number := by
  have numbers := accounted.numbers number
  rw [if_pos opened] at numbers
  rw [← exists_live_iff ok (is_iff number), ← Multiset.countP_pos]
  omega

/-- In every state of every run of `open`, `pipe`, `dup`, `close`, `fork`, `exit` and
`wait`, whatever fails, the account is right. -/
theorem open_file_accounting {actions : List (Nat × Action)}
    (run : Steps step boot actions state) : Accounts state := by
  rcases ok_of_run run with ⟨ok, accounted⟩
  constructor
  case refs =>
    intro f
    rw [ok.refs, count_owns]
  case closed => exact ok.closed
  case ends => exact isOpen_end_iff ok accounted
  case pages =>
    intro pi
    have pages := accounted.pages pi
    have single := accounted.single pi
    omega
  case allocated => exact allocated_iff accounted
  case freed =>
    intro p slot pi cont here
    have unused := not_inUse_of_kfree accounted slot here
    rwa [Pipe.inUse, Bool.or_eq_false_iff] at unused
  case valid =>
    intro f positive type
    have isOpen := (isOpen_end_iff ok accounted _ _).mpr (.inl ⟨f, positive, type, rfl, rfl⟩)
    exact ⟨(allocated_iff accounted _).mpr (.inl (Pipe.inUse_of_isOpen isOpen)), isOpen⟩
  case closes => exact fun number opened => closes_iff ok accounted opened
  case unopened =>
    intro number outside
    have numbers := accounted.numbers number
    rw [if_neg (Nat.not_lt.mpr outside)] at numbers
    omega

/-- A process makes a pipe and forks; both copies of an end are closed, and the
`copyout` of another pipe fails. -/
def pipeAndFork : List (Nat × Action) :=
  [(0, .call .pipe), (0, .proceed), (0, .proceed), (0, .kalloc (some 7)), (0, .proceed),
    (0, .proceed), (0, .proceed), (0, .copyout true), (0, .call .fork), (0, .allocproc (some 1)),
    (0, .uvmcopy true)] ++
  (List.replicate 19 (0, .proceed)) ++
  [(0, .call (.close 0)), (0, .proceed), (1, .call (.close 0)), (1, .proceed), (1, .proceed),
    (1, .call .pipe), (1, .proceed), (1, .proceed), (1, .kalloc (some 8)), (1, .proceed),
    (1, .proceed), (1, .proceed), (1, .copyout false), (1, .proceed), (1, .proceed),
    (1, .proceed), (1, .proceed), (1, .proceed)]

theorem open_file_accounting_pipeAndFork : ∃ state,
    Steps step boot pipeAndFork state ∧ Accounts state := by
  have ran := Outcome.eq_next_of_isNext boot
    (show (runSteps step boot pipeAndFork).isNext = true by decide +kernel)
  have run := steps_iff_runSteps.mpr ran
  exact ⟨_, run, open_file_accounting run⟩

/-- `filedup` and `fileclose` find no file without a reference. -/
theorem files_never_panic {actions : List (Nat × Action)}
    (run : Steps step boot actions state) (label : Nat × Action) (message : String) :
    step state label ≠ .panic message := by
  have ok := (ok_of_run run).1
  rcases label with ⟨p, action⟩
  simp only [step]
  split
  case isFalse => simp
  case isTrue alive =>
  have known := ok.pcs p alive.1
  have counted : ∀ {f}, f ∈ owns (state.proc p) → ¬(state.file f).ref < 1 :=
    fun owned => Nat.not_lt.mpr (ok.ref_pos alive.1 owned)
  cases action with
  | proceed =>
    cases here : (state.proc p).pc with
    | dupStored f fd =>
      rw [here] at known
      rcases known.2 with ⟨old, different, named⟩
      have owned := named.owned (by simp [here, Pc.holds, different])
      simp [proceed, here, counted owned]
    | forkDup np fd =>
      simp only [proceed, here]
      split
      · rename_i inside
        split
        · simp
        · rename_i f found
          have owned := Named.owned ⟨inside, found⟩ (by simp [here, Pc.holds])
          simp [counted owned]
      · simp
    | fileclose f cont =>
      have owned : f ∈ owns (state.proc p) := by
        cases cont with
        | exit fd =>
          rw [here] at known
          exact known.1.owned (by simp [here, Pc.holds])
        | _ => exact owned_of_held (by simp [here, Pc.held])
      simp only [proceed, here, closeStep, if_neg (counted owned)]
      repeat' split
      all_goals simp
    | _ =>
      simp only [proceed, here]
      repeat' split
      all_goals simp
  | _ =>
    simp only [enter.eq_def, kallocStep, copyoutStep, allocprocStep, uvmcopyStep]
    repeat' split
    all_goals simp

theorem files_never_panic_close : step ((runSteps step boot (pipeAndFork.take 31)).getD boot)
    (0, .proceed) ≠ .panic "fileclose" :=
  files_never_panic
    (steps_iff_runSteps.mpr (Outcome.eq_next_of_isNext boot (by decide +kernel))) _ _

end Xv6.Files
