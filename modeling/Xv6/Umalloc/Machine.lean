import Mathlib.Algebra.BigOperators.Group.List.Basic
import Mathlib.Tactic.Ring
import Xv6.Foundation.Transition

/-! # The allocator of `user/umalloc.c`

Addresses are numbers of bytes and a header takes 16 of them. The field `size`
is a `uint`. The blocks that `malloc` has returned and the regions that `sbrk`
has returned are recorded beside the memory; the code does not use these. -/

namespace Xv6.Umalloc

open Function (update)

/-- `sizeof(Header)` -/
def headerBytes : Nat := 16

structure Header where
  ptr : Nat
  size : Nat
  deriving DecidableEq

abbrev Mem := Nat → Header

/-- A value stored in a `uint`. -/
def uint (n : Nat) : Nat := n % 2 ^ 32

/-- An address and a number of units of `sizeof(Header)` bytes. -/
structure Block where
  addr : Nat
  units : Nat
  deriving DecidableEq

def Block.stop (block : Block) : Nat := block.addr + headerBytes * block.units

/-- The header of a block that `malloc` has returned, and the number of bytes asked for. -/
structure Live where
  block : Block
  bytes : Nat
  deriving DecidableEq

structure Heap where
  mem : Mem
  freep : Nat
  regions : List Block

def totalUnits (blocks : List Block) : Nat := (blocks.map Block.units).sum

section Code

/-- The loop of `free`. -/
def findPlace (mem : Mem) (bp : Nat) : Nat → Nat → Option Nat
  | 0, _ => none
  | fuel + 1, p =>
    if p < bp ∧ bp < (mem p).ptr then some p
    else if (mem p).ptr ≤ p ∧ (p < bp ∨ bp < (mem p).ptr) then some p
    else findPlace mem bp fuel (mem p).ptr

/-- Joins `bp` to the block after it, or links it to that block. -/
def joinNext (mem : Mem) (bp next : Nat) : Mem :=
  if bp + headerBytes * (mem bp).size = next then
    update mem bp ⟨(mem next).ptr, uint ((mem bp).size + (mem next).size)⟩
  else update mem bp { mem bp with ptr := next }

/-- Joins `bp` to the block before it, or links that block to it. -/
def joinPrev (mem : Mem) (p bp : Nat) : Mem :=
  if p + headerBytes * (mem p).size = bp then
    update mem p ⟨(mem bp).ptr, uint ((mem p).size + (mem bp).size)⟩
  else update mem p { mem p with ptr := bp }

/-- `free`, where `bp` is the address of the header. -/
def free (heap : Heap) (bp : Nat) : Option Heap := do
  let p ← findPlace heap.mem bp (totalUnits heap.regions + 2) heap.freep
  some { heap with mem := joinPrev (joinNext heap.mem bp (heap.mem p).ptr) p bp, freep := p }

/-- What is assumed of a region that `sbrk` returns: it is above `base` and disjoint from
the regions before it. -/
def Fresh (base : Nat) (regions : List Block) (region : Block) : Prop :=
  base + headerBytes ≤ region.addr ∧
    ∀ earlier ∈ regions, region.stop ≤ earlier.addr ∨ earlier.stop ≤ region.addr

instance (base : Nat) (regions : List Block) (region : Block) :
    Decidable (Fresh base regions region) :=
  inferInstanceAs (Decidable (_ ∧ _))

/-- How many units `morecore` asks for. -/
def coreUnits (nu : Nat) : Nat := if nu < 4096 then 4096 else nu

/-- `morecore`, when `sbrk` returns a region at `hp`. -/
def morecore (base : Nat) (heap : Heap) (nu hp : Nat) : Outcome Heap :=
  let region : Block := ⟨hp, coreUnits nu⟩
  if Fresh base heap.regions region then
    match free { heap with
        mem := update heap.mem hp { heap.mem hp with size := coreUnits nu }
        regions := region :: heap.regions } hp with
    | some grown => .next grown
    | none => .panic "free does not end"
  else .disabled

/-- Takes `nunits` units from the free block `p`: the whole block, or its tail. The
result is the address of the header. -/
def take (heap : Heap) (nunits prevp p : Nat) : Heap × Nat :=
  if (heap.mem p).size = nunits then
    ({ heap with
        mem := update heap.mem prevp { heap.mem prevp with ptr := (heap.mem p).ptr }
        freep := prevp }, p)
  else
    let size := uint ((heap.mem p).size - nunits)
    let mem := update heap.mem p { heap.mem p with size }
    let tail := p + headerBytes * size
    ({ heap with mem := update mem tail { mem tail with size := nunits }, freep := prevp }, tail)

/-- The loop of `malloc`. Each call of `sbrk` takes one of the grants: the address of a
region, or nothing when `sbrk` fails. -/
def mallocLoop (base nunits : Nat) :
    Nat → Heap → List (Option Nat) → Nat → Nat → Outcome (Heap × Option Nat)
  | 0, _, _, _, _ => .panic "malloc does not end"
  | fuel + 1, heap, grants, prevp, p =>
    if nunits ≤ (heap.mem p).size then
      .next ((take heap nunits prevp p).1, some (take heap nunits prevp p).2)
    else if p = heap.freep then
      match grants.head?.join with
      | none => .next (heap, none)
      | some hp =>
        match morecore base heap nunits hp with
        | .next grown =>
          mallocLoop base nunits fuel grown grants.tail grown.freep (grown.mem grown.freep).ptr
        | .panic message => .panic message
        | .disabled => .disabled
    else mallocLoop base nunits fuel heap grants p (heap.mem p).ptr

def unitsFor (nbytes : UInt32) : Nat :=
  uint ((nbytes.toNat + headerBytes - 1) / headerBytes + 1)

end Code

/-- The memory, `freep` if it is not null, and what the code does not record. -/
structure State where
  mem : Mem
  freep : Option Nat
  regions : List Block
  live : List Live

inductive Action where
  | malloc (nbytes : UInt32) (grants : List (Option Nat))
  | free (ap : Nat)
  /-- The program writes into a block: the header that would be at `addr` changes. -/
  | write (addr : Nat) (value : Header)

/-- The heap that `malloc` searches: `base` is linked to itself at the first call. -/
def State.heap (base : Nat) (state : State) : Heap :=
  match state.freep with
  | some freep => ⟨state.mem, freep, state.regions⟩
  | none => ⟨update state.mem base ⟨base, 0⟩, base, state.regions⟩

def mallocStep (base : Nat) (state : State) (nbytes : UInt32) (grants : List (Option Nat)) :
    Outcome State :=
  let heap := state.heap base
  let nunits := unitsFor nbytes
  let fuel := 2 * (totalUnits state.regions + coreUnits nunits) + 8
  (mallocLoop base nunits fuel heap grants heap.freep (heap.mem heap.freep).ptr).map fun result =>
    { mem := result.1.mem, freep := some result.1.freep, regions := result.1.regions
      live := (result.2.map fun addr => ⟨⟨addr, nunits⟩, nbytes.toNat⟩).toList ++ state.live }

def freeStep (base : Nat) (state : State) (ap : Nat) : Outcome State :=
  match state.live.find? fun live => live.block.addr + headerBytes = ap with
  | none => .disabled
  | some live =>
    match free (state.heap base) live.block.addr with
    | some heap =>
      .next { mem := heap.mem, freep := some heap.freep, regions := heap.regions,
              live := state.live.erase live }
    | none => .panic "free does not end"

def step (base : Nat) (state : State) : Action → Outcome State
  | .malloc nbytes grants => mallocStep base state nbytes grants
  | .free ap => freeStep base state ap
  | .write addr value =>
    if ∃ live ∈ state.live, live.block.addr < addr ∧ addr < live.block.stop then
      .next { state with mem := update state.mem addr value }
    else .disabled

/-- Before the first call. -/
def boot : State where
  mem := fun _ => ⟨0, 0⟩
  freep := none
  regions := []
  live := []

end Xv6.Umalloc
