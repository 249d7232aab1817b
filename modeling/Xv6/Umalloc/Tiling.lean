import Mathlib.Data.List.Pairwise
import Xv6.Umalloc.Malloc

/-! # The heap over every sequence of calls -/

namespace Xv6.Umalloc

variable {base : Nat} {state next : State}

def State.liveBlocks (state : State) : List Block := state.live.map Live.block

/-- The free list is a cycle through `base`, in increasing order, of blocks that are not
adjacent; the free and the live blocks are pairwise disjoint and together are what
`sbrk` has returned; a live block has the bytes that were asked for. -/
structure Tiled (base : Nat) (state : State) (blocks : List Block) : Prop where
  cycle : state.freep.isSome → Walk (links state.mem) base (addrs blocks) base
  sizes : ∀ block ∈ blocks, (state.mem block.addr).size = block.units
  above : ∀ block ∈ blocks, base < block.addr
  increasing : (addrs blocks).Pairwise (· < ·)
  notAdjacent : ∀ block ∈ blocks, ∀ other ∈ blocks, block.stop ≠ other.addr
  liveSizes : ∀ live ∈ state.live, (state.mem live.block.addr).size = live.block.units
  disjoint : (blocks ++ state.liveBlocks).Pairwise Block.Apart
  tiles : ∀ x, (∃ block ∈ blocks ++ state.liveBlocks, block.Has x) ↔
    ∃ region ∈ state.regions, region.Has x
  usable : ∀ live ∈ state.live, live.bytes + headerBytes ≤ headerBytes * live.block.units

/-- What holds between the calls. -/
structure Valid (base : Nat) (state : State) (blocks : List Block) : Prop where
  ok : Ok base (state.heap base) blocks state.liveBlocks
  usable : ∀ live ∈ state.live, live.bytes + headerBytes ≤ headerBytes * live.block.units
  fresh : state.freep = none → blocks = [] ∧ state.live = []

theorem heap_regions (base : Nat) (state : State) : (state.heap base).regions = state.regions := by
  rw [State.heap]
  split <;> rfl

/-! ## The steps -/

theorem unitsFor_enough (nbytes : UInt32) :
    0 < unitsFor nbytes ∧ nbytes.toNat + headerBytes ≤ headerBytes * unitsFor nbytes := by
  have small := nbytes.toNat_lt
  simp only [unitsFor, headerBytes]
  rw [uint_eq (by omega)]
  omega

/-- A step that ends, in a heap of which this holds again. -/
inductive Keeps (base : Nat) : Outcome State → Prop
  | next {state blocks} : Valid base state blocks → Keeps base (.next state)
  | disabled : Keeps base .disabled

variable {blocks : List Block}

theorem Valid.malloc (valid : Valid base state blocks) (small : totalUnits state.regions < 2 ^ 32)
    (grants : List (Option Nat))
    (room : totalUnits state.regions + coreUnits (unitsFor nbytes) < 2 ^ 32 ∨
      ∃ next, mallocStep base state nbytes grants = .next next ∧ totalUnits next.regions < 2 ^ 32) :
    Keeps base (mallocStep base state nbytes grants) := by
  rcases unitsFor_enough nbytes with ⟨positive, usable⟩
  have regions := heap_regions base state
  rw [mallocStep] at room ⊢
  have returned := mallocLoop_returned valid.ok positive (regions ▸ small) (Nat.le_refl _) grants
    (by
      rcases room with now | ⟨next, stepEq, fits⟩
      · rw [regions]
        exact .inl now
      · rcases (Outcome.map_eq_next_iff _ _ _).mp stepEq with ⟨result, loop, equal⟩
        rw [regions]
        refine .inr ⟨result, loop, ?_⟩
        rw [← equal] at fits
        exact fits)
  rw [regions] at returned
  generalize mallocLoop base (unitsFor nbytes) _ (state.heap base) grants _ _ = outcome at returned
  cases returned with
  | @block heap result addr ok =>
    apply @Keeps.next base _ result
    refine ⟨ok, ?_, fun none => by cases none⟩
    intro live member
    rcases List.mem_cons.mp member with same | later
    · rw [same]
      exact usable
    · exact valid.usable live later
  | @null heap result ok =>
    exact @Keeps.next base _ result ⟨ok, valid.usable, fun none => by cases none⟩
  | outside => exact .disabled

theorem Ok.perm (ok : Ok base heap blocks live) (perm : live.Perm other) :
    Ok base heap blocks other where
  ring := ok.ring
  freep := ok.freep
  liveSizes := fun block member => ok.liveSizes block (perm.mem_iff.mpr member)
  livePositive := fun block member => ok.livePositive block (perm.mem_iff.mpr member)
  liveAbove := fun block member => ok.liveAbove block (perm.mem_iff.mpr member)
  cover := by
    intro x
    rw [← cover_perm perm, ok.cover x]
  total := by
    rw [← totalUnits_perm perm, ok.total]
  apart := ok.apart

theorem Valid.free (valid : Valid base state blocks) (small : totalUnits state.regions < 2 ^ 32)
    (ap : Nat) : Keeps base (freeStep base state ap) := by
  rw [freeStep]
  cases found : state.live.find? fun live => live.block.addr + headerBytes = ap with
  | none => exact .disabled
  | some live =>
    have member : live ∈ state.live := List.mem_of_find?_eq_some found
    have perm : state.liveBlocks.Perm (live.block :: (state.live.erase live).map Live.block) :=
      (List.perm_cons_erase member).map Live.block
    rw [← heap_regions base state] at small
    rcases (valid.ok.perm perm).free small with ⟨heap, result, freed, ok, _, _⟩
    simp only [freed]
    apply @Keeps.next base _ result
    exact ⟨ok, fun other there => valid.usable other (List.mem_of_mem_erase there),
      fun none => by cases none⟩

theorem Valid.write (valid : Valid base state blocks) (member : live ∈ state.live) (value : Header)
    (inside : live.block.addr < addr ∧ addr < live.block.stop) :
    Valid base { state with mem := Function.update state.mem addr value } blocks := by
  have isLive : live.block ∈ state.liveBlocks := List.mem_map_of_mem member
  cases started : state.freep with
  | none =>
    rw [(valid.fresh started).2] at member
    cases member
  | some freep =>
    have before : state.heap base = ⟨state.mem, freep, state.regions⟩ := by
      rw [State.heap, started]
    have ok := valid.ok
    rw [before] at ok
    have pairwise := List.pairwise_append.mp ok.pairwise
    have notBase : base ≠ addr := by
      have above := ok.liveAbove live.block isLive
      rw [headerBytes] at above
      omega
    -- The address is inside a live block, so no block starts there.
    have notStart : ∀ other : Block, 0 < other.units →
        other = live.block ∨ other.Apart live.block → other.addr ≠ addr := by
      intro other positive cases_
      rcases cases_ with equal | apart
      · rw [equal]
        omega
      · simp only [Block.Apart, Block.stop, headerBytes] at apart inside
        omega
    have notFree : ∀ other ∈ blocks, other.addr ≠ addr := fun other there =>
      notStart other (ok.ring.positive other there) (.inr (ok.apart_free_live there isLive))
    have notLive : ∀ other ∈ state.liveBlocks, other.addr ≠ addr := by
      intro other there
      apply notStart other (ok.livePositive other there)
      by_cases same : other = live.block
      · exact .inl same
      · exact .inr (pairwise.2.1.forall there isLive same)
    have sameSize : ∀ q, q ≠ addr →
        (Function.update state.mem addr value q).size = (state.mem q).size := by
      intro q different
      rw [Function.update_of_ne different]
    refine ⟨?_, valid.usable, fun none => by cases none⟩
    show Ok base ⟨Function.update state.mem addr value, freep, state.regions⟩ blocks
      state.liveBlocks
    refine ⟨⟨?_, ?_, ?_, ok.ring.positive, ok.ring.apart, ok.ring.above⟩, ok.freep, ?_,
      ok.livePositive, ok.liveAbove, ok.cover, ok.total, ok.apart⟩
    · rw [links_update]
      apply ok.ring.walk.congr
      intro node there
      rw [Function.update_of_ne]
      rcases List.mem_cons.mp there with equal | isNode
      · rw [equal]
        exact notBase
      · rcases List.mem_map.mp isNode with ⟨other, isFree, equal⟩
        rw [← equal]
        exact notFree other isFree
    · exact (sameSize base notBase).trans ok.ring.baseSize
    · intro other there
      exact (sameSize _ (notFree other there)).trans (ok.ring.sizes other there)
    · intro other there
      exact (sameSize _ (notLive other there)).trans (ok.liveSizes other there)

/-! ## Runs -/

theorem valid_boot : Valid base boot [] where
  ok := by
    have linked : (boot.heap base).mem base = ⟨base, 0⟩ := Function.update_self base _ _
    refine ⟨⟨?_, ?_, by simp, by simp, .nil, by simp⟩, List.mem_cons_self, ?_, ?_, ?_, ?_, rfl,
      .nil⟩
    · exact congrArg Header.ptr linked
    · exact congrArg Header.size linked
    · intro block member
      cases member
    · intro block member
      cases member
    · intro block member
      cases member
    · intro x
      rfl
  usable := by
    intro live member
    cases member
  fresh := fun _ => ⟨rfl, rfl⟩

theorem step_regions (stepEq : step base state action = .next next) :
    ∃ new, next.regions = new ++ state.regions ∧ ∀ region ∈ new, ∃ nbytes grants hp,
      action = .malloc nbytes grants ∧ some hp ∈ grants ∧
        region = ⟨hp, coreUnits (unitsFor nbytes)⟩ := by
  have same : ∀ {next : State}, next.regions = state.regions →
      ∃ new, next.regions = new ++ state.regions ∧ ∀ region ∈ new, ∃ nbytes grants hp,
        action = .malloc nbytes grants ∧ some hp ∈ grants ∧
          region = ⟨hp, coreUnits (unitsFor nbytes)⟩ :=
    fun equal => ⟨[], equal, fun _ member => by cases member⟩
  cases action with
  | malloc nbytes grants =>
    rw [step, mallocStep] at stepEq
    rcases (Outcome.map_eq_next_iff _ _ _).mp stepEq with ⟨result, loop, rfl⟩
    rcases mallocLoop_regions loop with ⟨new, regions, granted⟩
    rw [heap_regions] at regions
    refine ⟨new, regions, fun region member => ?_⟩
    rcases granted region member with ⟨hp, there, equal⟩
    exact ⟨nbytes, grants, hp, rfl, there, equal⟩
  | free ap =>
    rw [step, freeStep] at stepEq
    split at stepEq
    · cases stepEq
    · split at stepEq
      · rename_i freed
        cases stepEq
        exact same ((free_regions freed).trans (heap_regions base state))
      · cases stepEq
  | write addr value =>
    rw [step] at stepEq
    split at stepEq
    · cases stepEq
      exact same rfl
    · cases stepEq

/-- There is room for the region that a call of `malloc` asks for. -/
def Room (state : State) : Action → Prop
  | .malloc nbytes _ => totalUnits state.regions + coreUnits (unitsFor nbytes) < 2 ^ 32
  | _ => True

theorem Valid.step {blocks : List Block} (valid : Valid base state blocks)
    (small : totalUnits state.regions < 2 ^ 32) (action : Action)
    (room : Room state action ∨
      ∃ next, step base state action = .next next ∧ totalUnits next.regions < 2 ^ 32) :
    Keeps base (step base state action) := by
  cases action with
  | malloc nbytes grants => exact valid.malloc small grants room
  | free ap => exact valid.free small ap
  | write addr value =>
    rw [Umalloc.step]
    split
    · rename_i found
      rcases found with ⟨live, member, inside⟩
      exact .next (valid.write member value inside)
    · exact .disabled

theorem valid_of_step
    (holds : totalUnits state.regions < 2 ^ 32 → ∃ blocks, Valid base state blocks)
    (stepEq : step base state action = .next next) (small : totalUnits next.regions < 2 ^ 32) :
    ∃ blocks, Valid base next blocks := by
  rcases step_regions stepEq with ⟨new, regions, _⟩
  have less := small
  rw [regions, totalUnits_append] at less
  rcases holds (by omega) with ⟨blocks, valid⟩
  have kept := valid.step (by omega) action (.inr ⟨next, stepEq, small⟩)
  rw [stepEq] at kept
  cases kept with
  | @next _ blocks valid => exact ⟨blocks, valid⟩

theorem valid_of_run (run : Steps (step base) boot actions state) :
    totalUnits state.regions < 2 ^ 32 → ∃ blocks, Valid base state blocks :=
  run.invariant (fun _ _ _ => valid_of_step) fun _ => ⟨[], valid_boot⟩

theorem Valid.tiled (valid : Valid base state blocks) : Tiled base state blocks := by
  have ok := valid.ok
  have regions := heap_regions base state
  have apart := ok.ring.apart
  have positive := ok.ring.positive
  -- Before the first call there are no blocks; after it the heap has the memory as it is.
  have same : (blocks = [] ∧ state.live = []) ∨
      (state.heap base).mem = state.mem := by
    cases started : state.freep with
    | none => exact .inl (valid.fresh started)
    | some freep =>
      right
      rw [State.heap, started]
  constructor
  · intro started
    rcases Option.isSome_iff_exists.mp started with ⟨freep, equal⟩
    have walk := ok.ring.walk
    rw [State.heap, equal] at walk
    exact walk
  · intro block member
    rcases same with ⟨none, _⟩ | equal
    · rw [none] at member
      cases member
    · rw [← equal, ok.ring.sizes block member]
  · intro block member
    have above := ok.ring.above block member
    rw [headerBytes] at above
    omega
  · exact (List.pairwise_cons.mp ok.ring.sorted).2
  · intro block member other there equal
    by_cases self : block = other
    · have some := positive block member
      rw [← self, Block.stop, headerBytes] at equal
      omega
    · rcases List.append_of_mem member with ⟨before, after, split⟩
      rw [split] at apart there
      have pairs := List.pairwise_append.mp apart
      rcases List.mem_append.mp there with early | late
      · have less := pairs.2.2 other early block List.mem_cons_self
        rw [Block.stop] at less equal
        omega
      · rcases List.mem_cons.mp late with same | later
        · exact self same.symm
        · have less := (List.pairwise_cons.mp pairs.2.1).1 other later
          omega
  · intro live member
    rcases same with ⟨_, none⟩ | equal
    · rw [none] at member
      cases member
    · rw [← equal]
      exact ok.liveSizes live.block (List.mem_map_of_mem member)
  · exact ok.pairwise
  · intro x
    rw [← cover_pos_iff, ← cover_pos_iff, cover_append, ok.cover x, regions]
  · exact valid.usable

/-- As long as the regions together have fewer than 2^32 units, after every sequence of
calls of `malloc` and `free` and of writes into live blocks the heap is tiled, and the
loops of the next call end. -/
theorem heap_tiled {actions : List Action} (run : Steps (step base) boot actions state)
    (small : totalUnits state.regions < 2 ^ 32) :
    ∃ blocks, Tiled base state blocks ∧
      ∀ action, Room state action → ∀ message, step base state action ≠ .panic message := by
  rcases valid_of_run run small with ⟨blocks, valid⟩
  refine ⟨blocks, valid.tiled, ?_⟩
  intro action room message panics
  have kept := valid.step small action (.inl room)
  rw [panics] at kept
  cases kept

/-- Two blocks are taken from one region, and the first is freed. -/
def twoBlocks : List Action := [.malloc 100 [some 64], .malloc 40 [], .free (64 + 16 * 4088 + 16)]

theorem heap_tiled_twoBlocks : ∃ state, Steps (step 16) boot twoBlocks state ∧
    totalUnits state.regions < 2 ^ 32 ∧ ∃ blocks, Tiled 16 state blocks := by
  have ran := Outcome.eq_next_of_isNext boot
    (show (runSteps (step 16) boot twoBlocks).isNext = true by decide +kernel)
  have run := steps_iff_runSteps.mpr ran
  have small : totalUnits ((runSteps (step 16) boot twoBlocks).getD boot).regions < 2 ^ 32 := by
    decide +kernel
  rcases heap_tiled run small with ⟨blocks, tiled, _⟩
  exact ⟨_, run, small, blocks, tiled⟩

/-- The regions of 33 calls, each after the one before: 2^27 - 1 units. -/
def adjacentRegion (i : Nat) : Nat := 32 + i * (2 ^ 31 - 16)

/-- 33 calls of `malloc`, and then the blocks are freed in the same order. -/
def overflow : List Action :=
  (List.range 33).map (fun i => .malloc 2147483616 [some (adjacentRegion i)]) ++
    (List.range 33).map fun i => .free (adjacentRegion i + 16)

/-- When 2^32 units are joined, the field `size` overflows and units are lost. -/
theorem overflow_not_tiled : ∃ state, Steps (step 16) boot overflow state ∧
    ∀ blocks, ¬ Tiled 16 state blocks := by
  have ran := Outcome.eq_next_of_isNext boot
    (show (runSteps (step 16) boot overflow).isNext = true by decide +kernel)
  refine ⟨_, steps_iff_runSteps.mpr ran, ?_⟩
  have started : ((runSteps (step 16) boot overflow).getD boot).freep.isSome := by decide +kernel
  have live : ((runSteps (step 16) boot overflow).getD boot).live = [] := by decide +kernel
  have first : links ((runSteps (step 16) boot overflow).getD boot).mem 16 = 32 := by
    decide +kernel
  have second : links ((runSteps (step 16) boot overflow).getD boot).mem 32 = 16 := by
    decide +kernel
  have size : (((runSteps (step 16) boot overflow).getD boot).mem 32).size = 2 ^ 27 - 33 := by
    decide +kernel
  have region : ⟨32, 2 ^ 27 - 1⟩ ∈ ((runSteps (step 16) boot overflow).getD boot).regions := by
    decide +kernel
  generalize (runSteps (step 16) boot overflow).getD boot = state at *
  intro blocks tiled
  have cycle := tiled.cycle started
  -- The list is one block, which ends before its region does.
  have lost : ∃ block ∈ blocks ++ state.liveBlocks, block.Has (32 + 16 * (2 ^ 27 - 33)) :=
    (tiled.tiles _).mpr ⟨_, region, by decide⟩
  rcases lost with ⟨block, member, inside⟩
  rw [State.liveBlocks, live, List.map_nil, List.append_nil] at member
  have blockSize := tiled.sizes block member
  have only : block.addr = 32 := by
    cases blocks with
    | nil => cases member
    | cons head rest =>
      have headAddr : head.addr = 32 := cycle.1.symm.trans first
      rcases List.mem_cons.mp member with equal | later
      · rw [equal, headAddr]
      · cases rest with
        | nil => cases later
        | cons other rest =>
          have back : other.addr = 16 := by
            rw [← second, ← headAddr]
            exact cycle.2.1.symm
          have above := tiled.above other (by simp)
          omega
  rw [only, size] at blockSize
  simp only [Block.Has, Block.stop, headerBytes, only, ← blockSize] at inside
  omega

end Xv6.Umalloc
