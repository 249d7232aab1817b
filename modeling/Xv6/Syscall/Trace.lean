import Xv6.Foundation.History
import Xv6.Syscall.Slots
import Mathlib.Tactic.IntervalCases

/-! # Trace masks are inherited -/

namespace Xv6.Syscalls

/-- The mask of a process according to the history: the one it has set last, or else
the one its parent had when it was created; the first process starts with 0. -/
def maskInForce : List Event → Nat → Int32
  | [], _ => 0
  | .traced who mask :: earlier, number =>
    if who = number then mask else maskInForce earlier number
  | .created child parent :: earlier, number =>
    if child = number then parent.elim 0 (maskInForce earlier) else maskInForce earlier number
  | .killed .. :: earlier, number | .returned .. :: earlier, number =>
    maskInForce earlier number

/-- What an event says about the events before it: `syscall` prints as the mask in
force says, and no number is given twice. -/
def Follows (earlier : List Event) : Event → Prop
  | .returned number num printed => printed = traces num (maskInForce earlier number)
  | .created number _ => ∀ parent, .created number parent ∉ earlier
  | .traced .. | .killed .. => True

structure Masked (state : State) : Prop where
  masks : ∀ q, state.Live q → (state.proc q).mask = maskInForce state.history (state.proc q).number
  counted : ∀ number parent, .created number parent ∈ state.history → number < state.created
  ordered : Ordered Follows state.history

variable {state next : State} {p q : Nat} {action : Action} {event : Option Event}

theorem maskInForce_cons {event : Event} (traced : ∀ mask, event ≠ .traced number mask)
    (created : ∀ parent, event ≠ .created number parent) :
    maskInForce (event :: earlier) number = maskInForce earlier number := by
  cases event with
  | traced who mask =>
    have different : who ≠ number := fun equal => traced mask (equal ▸ rfl)
    rw [maskInForce, if_neg different]
  | created child parent =>
    have different : child ≠ number := fun equal => created parent (equal ▸ rfl)
    rw [maskInForce, if_neg different]
  | killed | returned => rfl

/-- What a step records. -/
inductive Recorded (state : State) (p : Nat) : Option Event → Prop
  | none : Recorded state p none
  | created : Recorded state p (some (.created state.created (some (state.proc p).number)))
  | traced {mask} : Recorded state p (some (.traced (state.proc p).number mask))
  | killed {pid slot} : Recorded state p (some (.killed pid slot))
  | returned {num} : Recorded state p
      (some (.returned (state.proc p).number num (traces num (state.proc p).mask)))

theorem Moves.recorded {table : Nat → Proc} (moves : Moves state p action table event) :
    Recorded state p event := by
  cases moves <;> constructor

theorem maskInForce_kept (ok : Ok state) (active : state.Active p)
    (stepped : Stepped state p action next event) (live : state.Live q)
    (quiet : ∀ mask, event = some (.traced (state.proc p).number mask) → q ≠ p) :
    maskInForce next.history (state.proc q).number =
      maskInForce state.history (state.proc q).number := by
  have recorded := stepped.moves.recorded
  rw [stepped.history]
  cases recorded with
  | none | killed | returned => rfl
  | created =>
    apply maskInForce_cons
    · intro mask equal
      cases equal
    · intro parent equal
      have bound := ok.numbers q live
      have same := (Event.created.inj equal).1
      omega
  | @traced mask =>
    apply maskInForce_cons
    · intro mask' equal
      have same := (Event.traced.inj equal).1
      exact quiet mask rfl (ok.distinct p q active.live live same).symm
    · intro parent equal
      cases equal

theorem Stepped.masks (ok : Ok state) (active : state.Active p)
    (stepped : Stepped state p action next event) (masked : Masked state) (q : Nat)
    (live : next.Live q) :
    (next.proc q).mask = maskInForce next.history (next.proc q).number := by
  have slot := stepped.moves.slotStep ok active q
  have history := stepped.history
  have unchanged : (∀ mask, event = some (.traced (state.proc p).number mask) → q ≠ p) →
      state.Live q → (next.proc q).mask = (state.proc q).mask →
      (next.proc q).number = (state.proc q).number →
      (next.proc q).mask = maskInForce next.history (next.proc q).number := by
    intro quiet before mask number
    rw [mask, number, maskInForce_kept ok active stepped before quiet]
    exact masked.masks q before
  cases slot with
  | kept kept quiet =>
    exact unchanged quiet (fun unused => live (kept.live.mpr unused)) kept.mask kept.number
  | created unused _ number mask _ =>
    rw [mask, number, history, masked.masks p active.live]
    exact (if_pos rfl).symm
  | freed unused => exact absurd unused live
  | killed same _ mask number _ =>
    apply unchanged _ (fun unused => live (same.mpr unused)) mask number
    intro mask equal
    cases equal
  | traced self _ _ _ number =>
    rw [number, history, self]
    exact (if_pos rfl).symm

theorem Stepped.masked (ok : Ok state) (active : state.Active p)
    (stepped : Stepped state p action next event) (masked : Masked state) : Masked next where
  masks := stepped.masks ok active masked
  counted := by
    intro number parent member
    have recorded := stepped.moves.recorded
    have before := masked.counted number parent
    rw [stepped.history] at member
    rw [stepped.created]
    cases recorded with
    | none => exact before member
    | created =>
      rcases List.mem_cons.mp member with equal | member
      · cases equal
        exact Nat.lt_succ_self _
      · exact Nat.lt_succ_of_lt (before member)
    | traced | killed | returned =>
      rcases List.mem_cons.mp member with equal | member
      · cases equal
      · exact before member
  ordered := by
    have recorded := stepped.moves.recorded
    rw [stepped.history]
    cases recorded with
    | none => exact masked.ordered
    | created =>
      refine ⟨fun parent member => ?_, masked.ordered⟩
      exact Nat.lt_irrefl _ (masked.counted _ _ member)
    | traced | killed => exact ⟨trivial, masked.ordered⟩
    | returned => exact ⟨congrArg (traces _) (masked.masks p active.live), masked.ordered⟩

theorem masked_boot : Masked boot where
  masks := by
    intro q live
    have first : q = initproc := by
      by_contra other
      exact live (by simp [boot, other])
    rw [first]
    rfl
  counted := by
    intro number parent member
    rw [List.mem_singleton.mp member |> fun equal => (Event.created.inj equal).1]
    exact Nat.zero_lt_one
  ordered := ⟨fun parent member => (by cases member), trivial⟩

theorem traces_iff (valid : num ≤ handlers.length) (mask : Int32) :
    traces num mask = true ↔ mask.toBitVec.getLsbD num = true := by
  have bound : num ≤ 22 := valid
  have shift : ((1 : Int32) <<< (Int32.ofNat num)).toBitVec = BitVec.twoPow 32 num := by
    interval_cases num <;> rfl
  rw [traces, bne_iff_ne, ne_eq, ← Int32.toBitVec_inj, Int32.toBitVec_and, shift, BitVec.twoPow_and]
  split
  · rename_i set
    simp only [set, iff_true]
    interval_cases num <;> decide
  · rename_i clear
    simp [clear]

/-- In every run, `syscall` prints a line for a call exactly if the bit of the call is
set in the mask in force for the process. -/
theorem trace_mask_inheritance {actions : List (Nat × Action)}
    (run : Steps step boot actions state) :
    (∀ later earlier number num printed,
      state.history = later ++ .returned number num printed :: earlier → num ≤ handlers.length →
      (printed = true ↔ (maskInForce earlier number).toBitVec.getLsbD num = true)) ∧
    ∀ later earlier number parent, state.history = later ++ .created number parent :: earlier →
      ∀ other, .created number other ∉ earlier := by
  have masked : Ok state ∧ Masked state := by
    apply @Steps.invariant _ _ _ (fun state => Ok state ∧ Masked state) _ _ _ _ run
    · exact ⟨ok_boot, masked_boot⟩
    · intro state action next holds stepEq
      rcases step_stepped stepEq with ⟨active, event, stepped⟩
      exact ⟨stepped.ok holds.1 active, stepped.masked holds.1 active holds.2⟩
  constructor
  · intro later earlier number num printed split valid
    have follows := masked.2.ordered.follows_of_split split
    rw [← traces_iff valid]
    exact follows ▸ Iff.rfl
  · intro later earlier number parent split
    exact masked.2.ordered.follows_of_split split

/-- The first process sets the bit of `getpid` in its mask and forks, and its child
calls `getpid`. -/
def traceAndFork : List (Nat × Action) :=
  [(0, .schedule), (0, .trap 22 2048), (0, .proceed), (0, .trap 1 0), (0, .proceed), (0, .proceed),
    (0, .proceed), (0, .proceed), (0, .proceed), (1, .schedule), (1, .trap 11 0), (1, .finish 2),
    (1, .proceed)]

theorem trace_mask_inheritance_traceAndFork : ∃ state,
    Steps step boot traceAndFork state ∧
    state.history = [.returned 1 11 true, .returned 0 1 false, .created 1 (some 0),
      .returned 0 22 false, .traced 0 2048, .created 0 none] ∧
    (true = true ↔ (maskInForce [.returned 0 1 false, .created 1 (some 0), .returned 0 22 false,
      .traced 0 2048, .created 0 none] 1).toBitVec.getLsbD 11 = true) := by
  have ran := Outcome.eq_next_of_isNext boot
    (show (runSteps step boot traceAndFork).isNext = true by decide +kernel)
  have run := steps_iff_runSteps.mpr ran
  have history : ((runSteps step boot traceAndFork).getD boot).history =
      [.returned 1 11 true, .returned 0 1 false, .created 1 (some 0), .returned 0 22 false,
        .traced 0 2048, .created 0 none] := by decide +kernel
  exact ⟨_, run, history, (trace_mask_inheritance run).1 [] _ 1 11 true history (by decide)⟩

end Xv6.Syscalls
