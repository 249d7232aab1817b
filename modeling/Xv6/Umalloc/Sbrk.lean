import Xv6.Umalloc.Tiling

/-! # What `malloc` asks of `sbrk`

`morecore` computes the number of bytes in 64 bits and passes it to `sbrk` as an `int`. -/

namespace Xv6.Umalloc

/-- The `int` that `morecore(nu)` passes to `sbrk`. -/
def sbrkArg (nu : Nat) : Int := (BitVec.ofNat 32 (coreUnits nu * headerBytes)).toInt

/-- `sbrk(n)` in a process of `sz` bytes: what it returns and the new size. `room` tells
whether `uvmalloc` finds the memory; `uvmdealloc` does nothing if the size would not be less. -/
def sbrk (sz : Nat) (n : Int) (room : Bool) : Option Nat × Nat :=
  if 0 < n then if room then (some sz, sz + n.toNat) else (none, sz)
  else
    let newsz := ((sz + n) % 2 ^ 64).toNat
    (some sz, if n < 0 ∧ newsz < sz then newsz else sz)

/-- A process: the heap, its size, and the memory by which `sbrk` has grown it. -/
structure Process where
  state : State
  sz : Nat
  grown : List (Nat × Nat)

inductive Request where
  | malloc (nbytes : UInt32) (room : Bool)
  | free (ap : Nat)
  | write (addr : Nat) (value : Header)

/-- The call, with the grant that `sbrk` gives it if it asks for memory. -/
def Request.action (sz : Nat) : Request → Action
  | .malloc nbytes room => .malloc nbytes [(sbrk sz (sbrkArg (unitsFor nbytes)) room).1]
  | .free ap => .free ap
  | .write addr value => .write addr value

/-- The size after the `sbrk` of the call. -/
def Request.brk (sz : Nat) : Request → Nat
  | .malloc nbytes room => (sbrk sz (sbrkArg (unitsFor nbytes)) room).2
  | _ => sz

def Process.step (base : Nat) (process : Process) (request : Request) : Outcome Process :=
  (Umalloc.step base process.state (request.action process.sz)).map fun next =>
    if next.regions = process.state.regions then { process with state := next }
    else
      { state := next, sz := request.brk process.sz,
        grown := (process.sz, request.brk process.sz) :: process.grown }

def Process.boot (sz : Nat) : Process := ⟨Umalloc.boot, sz, []⟩

/-- The argument of `sbrk` is the number of bytes that `morecore` then uses. -/
def Represented (nbytes : UInt32) : Prop :=
  sbrkArg (unitsFor nbytes) = (coreUnits (unitsFor nbytes) * headerBytes : Nat) ∧
    0 < sbrkArg (unitsFor nbytes)

/-- Every byte of every block that `malloc` has returned is one that `sbrk` has added. -/
def Process.Backed (process : Process) : Prop :=
  ∀ live ∈ process.state.live, ∀ x, live.block.Has x → ∃ added ∈ process.grown,
    added.1 ≤ x ∧ x < added.2

theorem represented_iff (nbytes : UInt32) : Represented nbytes ↔ nbytes.toNat ≤ 2 ^ 31 - 32 := by
  have small := nbytes.toNat_lt
  have units : unitsFor nbytes = (nbytes.toNat + 15) / 16 + 1 := by
    rw [unitsFor, headerBytes, uint_eq (by omega)]
    omega
  rw [Represented, sbrkArg, coreUnits, units, headerBytes, BitVec.toInt_eq_toNat_bmod,
    BitVec.toNat_ofNat, Int.bmod_def]
  split <;> split <;> omega

/-- Every region is memory that `sbrk` has added. -/
def Process.Granted (process : Process) : Prop :=
  ∀ region ∈ process.state.regions, ∀ x, region.Has x → ∃ added ∈ process.grown,
    added.1 ≤ x ∧ x < added.2

variable {base : Nat} {process next : Process} {request : Request}

theorem Process.Granted.step (granted : process.Granted)
    (represented : ∀ nbytes room, request = .malloc nbytes room → Represented nbytes)
    (stepEq : process.step base request = .next next) : next.Granted := by
  rcases (Outcome.map_eq_next_iff _ _ _).mp stepEq with ⟨state, stateEq, rfl⟩
  rcases step_regions stateEq with ⟨new, regions, from_⟩
  split
  · rename_i same
    intro region member
    exact granted region (same ▸ member)
  · intro region member x inside
    rw [regions] at member
    rcases List.mem_append.mp member with isNew | old
    · rcases from_ region isNew with ⟨nbytes, grants, hp, action, grant, rfl⟩
      refine ⟨_, List.mem_cons_self, ?_⟩
      cases request with
      | free | write => cases action
      | malloc _ room =>
        cases action
        rcases represented nbytes room rfl with ⟨exact_, positive⟩
        have found := List.mem_singleton.mp grant
        rw [sbrk, if_pos positive] at found
        rw [Request.brk, sbrk, if_pos positive]
        split at found
        · rename_i roomy
          cases found
          rw [if_pos roomy, exact_, Int.toNat_natCast, Nat.mul_comm]
          exact inside
        · cases found
    · rcases granted region old x inside with ⟨added, there, bounds⟩
      exact ⟨added, List.mem_cons_of_mem _ there, bounds⟩

def Process.Sound (base : Nat) (process : Process) : Prop :=
  process.Granted ∧ (totalUnits process.state.regions < 2 ^ 32 →
    ∃ blocks, Valid base process.state blocks)

/-- The request asks for at most `limit` bytes. -/
def Request.UpTo (limit : UInt32) (request : Request) : Prop :=
  ∀ nbytes room, request = .malloc nbytes room → nbytes ≤ limit

/-- A request for `limit` bytes gives `sbrk` its exact and positive size, and as long as no
request is larger and the regions have fewer than 2^32 units `malloc` returns only memory that
`sbrk` has added: exactly for limits of up to 2^31 - 32 bytes. -/
theorem malloc_backed_iff (limit : UInt32) :
    (Represented limit ∧ ∀ base sz requests process, StepsWhere (Process.step base)
        (fun _ request => request.UpTo limit) (.boot sz) requests process →
      totalUnits process.state.regions < 2 ^ 32 → process.Backed) ↔ limit.toNat ≤ 2 ^ 31 - 32 := by
  refine ⟨fun holds => (represented_iff limit).mp holds.1, fun bound =>
    ⟨(represented_iff limit).mpr bound, fun base sz requests process run small => ?_⟩⟩
  have holds : process.Sound base := by
    refine run.invariant ?_ ⟨fun _ member => (by cases member), fun _ => ⟨[], valid_boot⟩⟩
    intro before request after holds allowed stepEq
    refine ⟨holds.1.step (fun nbytes room equal =>
      (represented_iff nbytes).mpr (Nat.le_trans (allowed nbytes room equal) bound)) stepEq, ?_⟩
    rcases (Outcome.map_eq_next_iff _ _ _).mp stepEq with ⟨state, stateEq, rfl⟩
    split <;> exact valid_of_step holds.2 stateEq
  rcases holds.2 small with ⟨blocks, valid⟩
  intro live member x inside
  rcases (valid.tiled.tiles x).mp ⟨live.block,
    List.mem_append.mpr (.inr (List.mem_map_of_mem member)), inside⟩ with ⟨region, there, has⟩
  exact holds.1 region there x has

theorem malloc_backed_iff_small : ∃ process,
    Process.step 16 (.boot 4096) (.malloc 100 true) = .next process ∧ process.Backed := by
  have ran := Outcome.eq_next_of_isNext (.boot 0)
    (show (Process.step 16 (.boot 4096) (.malloc 100 true)).isNext = true by decide +kernel)
  have backed := ((malloc_backed_iff 100).mpr (by decide)).2
  refine ⟨_, ran, backed 16 4096 _ _ (.cons ?_ ran (.nil _)) (by decide +kernel)⟩
  intro nbytes room equal
  cases equal
  decide

/-- `malloc(0xffffffff)` passes 16 to `sbrk`, and returns a block of 2^32 + 16 bytes. -/
theorem malloc_wraps : sbrkArg (unitsFor 0xffffffff) = 16 ∧
    ∃ process, Steps (Process.step 16) (.boot 4096) [.malloc 0xffffffff true] process ∧
      process.state.live = [⟨⟨4096, 2 ^ 28 + 1⟩, 2 ^ 32 - 1⟩] ∧ process.grown = [(4096, 4112)] ∧
        ¬ process.Backed := by
  have ran := Outcome.eq_next_of_isNext (.boot 0)
    (show (runSteps (Process.step 16) (.boot 4096) [.malloc 0xffffffff true]).isNext = true by
      decide +kernel)
  have live : ((runSteps (Process.step 16) (.boot 4096)
      [.malloc 0xffffffff true]).getD (.boot 0)).state.live =
        [⟨⟨4096, 2 ^ 28 + 1⟩, 2 ^ 32 - 1⟩] := by decide +kernel
  have grown : ((runSteps (Process.step 16) (.boot 4096)
      [.malloc 0xffffffff true]).getD (.boot 0)).grown = [(4096, 4112)] := by decide +kernel
  refine ⟨by decide, _, steps_iff_runSteps.mpr ran, live, grown, fun backed => ?_⟩
  rcases backed ⟨⟨4096, 2 ^ 28 + 1⟩, 2 ^ 32 - 1⟩ (by rw [live]; simp) 4112 (by decide) with
    ⟨added, member, bounds⟩
  rw [grown, List.mem_singleton] at member
  subst member
  omega

end Xv6.Umalloc
