import Xv6.Pipe.Machine
import Xv6.Console.Machine
import Xv6.Vm.UserCopy

/-! # Reads that fault

`piperead` and `consoleread` with their copies to user memory. Both advance the read index
before they call `copyout`, and do not put it back when the copy fails. -/

namespace Xv6.Reads

open StateProg Vm
open Prog (wp_bind wp_mono wp_pure)

/-- How a read stops. -/
inductive ReadEnd where
  | returned (count : Int)
  /-- It returns -1, the process having been killed. -/
  | killed
  /-- It goes to sleep until there is input. -/
  | asleep
  deriving DecidableEq

/-! ## The code -/

/-- The second loop of `piperead`, with `n` iterations left. -/
def pipereadFrom (table addr : Nat) : (n i : Nat) → (pi : Pipes.Pipe) → MemProg (Nat × Pipes.Pipe)
  | 0, i, pi => return (i, pi)
  | n + 1, i, pi => do
      if pi.empty then
        return (i, pi)
      else if ← copyout table ((addr + i) % 2 ^ 64) [pi.first] then
        pipereadFrom table addr n (i + 1) pi.take
      else
        return (i, pi.take)

/-- `piperead`, from where it has `pi->lock` until it sleeps or returns. -/
def piperead (table addr : Nat) (n : Int) (killed : Bool) (pi : Pipes.Pipe) :
    MemProg (ReadEnd × Pipes.Pipe) := do
  if pi.empty && pi.writeopen then
    return (if killed then .killed else .asleep, pi)
  else
    let (i, pi) ← pipereadFrom table addr n.toNat 0 pi
    return (.returned i, pi)

/-- The loop of `consoleread` with a user destination, with `n` bytes left to read, until it
sleeps or returns. -/
def consolereadFrom (table : Nat) (killed : Bool) (target : Nat) :
    (n dst : Nat) → (cons : Console.Cons) → MemProg (ReadEnd × Console.Cons)
  | 0, _, cons => return (.returned target, cons)
  | n + 1, dst, cons => do
      if cons.r = cons.w then
        return (if killed then .killed else .asleep, cons)
      else
        let c := cons.get cons.r
        let next := { cons with r := cons.r + 1 }
        if c = Console.ctrl 'D' then
          return (.returned (target - (n + 1)),
            if n + 1 < target then { next with r := next.r - 1 } else next)
        else if ← copyout table dst [c] then
          if c = Console.lf then
            return (.returned (target - n), next)
          else
            consolereadFrom table killed target n ((dst + 1) % 2 ^ 64) next
        else
          return (.returned (target - (n + 1)), next)

def consoleread (table dst : Nat) (n : Int) (killed : Bool) (cons : Console.Cons) :
    MemProg (ReadEnd × Console.Cons) :=
  consolereadFrom table killed n.toNat n.toNat dst cons

/-! ## One byte -/

section Step

variable {table va : Nat} {cell : Nat → Page}

theorem next_address (accessible : Accessible cell table va) : (va + 1) % 2 ^ 64 = va + 1 := by
  rcases Option.isSome_iff_exists.mp accessible with ⟨pa, found⟩
  have inRange := (userPage_eq_some found).1
  unfold maxVa at inRange
  omega

end Step

/-! ## Rings -/

/-- The first `k` bytes of a queue. -/
def queued (byte : Nat → UInt8) (k : Nat) : List UInt8 := (List.range k).map byte

theorem queued_succ (byte : Nat → UInt8) (k : Nat) :
    queued byte (k + 1) = byte 0 :: queued (fun j => byte (j + 1)) k := by
  rw [queued, List.range_succ_eq_map, List.map_cons, List.map_map]
  rfl

theorem ring_shift (r : UInt32) (j : Nat) :
    r + 1 + UInt32.ofNat j = r + UInt32.ofNat (j + 1) := by
  rw [UInt32.add_assoc, UInt32.add_comm 1, UInt32.ofNat_add]
  rfl

theorem ring_length {r w : UInt32} (different : r ≠ w) :
    (w - r).toNat = (w - (r + 1)).toNat + 1 := by
  have apart : r.toNat ≠ w.toNat := fun same => different (UInt32.toNat_inj.mp same)
  have small := r.toNat_lt
  have small' := w.toNat_lt
  rw [UInt32.toNat_sub, UInt32.toNat_sub, UInt32.toNat_add]
  have one : (1 : UInt32).toNat = 1 := rfl
  rw [one]
  omega

/-! ## `piperead` -/

section Pipe

variable {allowed : String → Prop} {table : Nat} {before memory : Memory}

/-- The byte at position `j` of the queue. -/
def pipeByte (pi : Pipes.Pipe) (j : Nat) : UInt8 :=
  pi.data ((pi.nread + UInt32.ofNat j).toNat % Pipes.pipeSize)

def pipeLength (pi : Pipes.Pipe) : Nat := (pi.nwrite - pi.nread).toNat

theorem pipeByte_zero (pi : Pipes.Pipe) : pipeByte pi 0 = pi.first := by
  simp [pipeByte, Pipes.Pipe.first]

theorem pipeByte_take (pi : Pipes.Pipe) (j : Nat) : pipeByte pi.take j = pipeByte pi (j + 1) := by
  rw [pipeByte, pipeByte, Pipes.Pipe.take, ring_shift]

/-- The pipe after `m` bytes have been taken. -/
def pipeAdvance (pi : Pipes.Pipe) (m : Nat) : Pipes.Pipe :=
  { pi with nread := pi.nread + UInt32.ofNat m }

theorem pipeAdvance_zero (pi : Pipes.Pipe) : pipeAdvance pi 0 = pi := by
  simp [pipeAdvance]

theorem pipeAdvance_take (pi : Pipes.Pipe) (m : Nat) :
    pipeAdvance pi.take m = pipeAdvance pi (m + 1) := by
  rw [pipeAdvance, pipeAdvance, Pipes.Pipe.take, ring_shift]

theorem pipereadFrom_spec (apart : TablesApart before.cell table) {addr : Nat} (n i : Nat)
    {va : Nat} {pi : Pipes.Pipe} {memory : Memory} (here : (addr + i) % 2 ^ 64 = va)
    (kept : ∀ page ∈ tables before.cell 2 table, memory.cell page = before.cell page) :
    wp allowed (pipereadFrom table addr n i pi) memory fun result after =>
      ∃ k, Reach before.cell table va (min n (pipeLength pi)) k ∧
        result = (i + k, pipeAdvance pi (if k = min n (pipeLength pi) then k else k + 1)) ∧
        after = { memory with
          cell := storeBytes (userPage before.cell table) (queued (pipeByte pi) k) va
            memory.cell } := by
  induction n generalizing i va pi memory with
  | zero =>
    refine wp_pure.mpr ⟨0, ?_, ?_, rfl⟩
    · rw [Nat.zero_min]
      exact .zero
    · rw [Nat.zero_min, if_pos rfl, pipeAdvance_zero, Nat.add_zero]
  | succ n induction =>
    unfold pipereadFrom
    split
    · rename_i empty
      have zero : pipeLength pi = 0 := by
        rw [Pipes.Pipe.empty, decide_eq_true_iff] at empty
        rw [pipeLength, empty, UInt32.sub_self]
        rfl
      refine wp_pure.mpr ⟨0, ?_, ?_, rfl⟩
      · rw [zero]
        exact .zero
      · rw [zero, Nat.min_zero, if_pos rfl, pipeAdvance_zero, Nat.add_zero]
    · rename_i nonempty
      have length : pipeLength pi = pipeLength pi.take + 1 := by
        apply ring_length
        rw [Pipes.Pipe.empty, decide_eq_true_iff] at nonempty
        exact nonempty
      have total : min (n + 1) (pipeLength pi) = min n (pipeLength pi.take) + 1 := by omega
      rw [total]
      apply wp_bind.mpr
      rw [here]
      apply wp_copyoutByte apart kept
      · intro accessible
        have next : (addr + (i + 1)) % 2 ^ 64 = va + 1 := by
          rw [← next_address accessible, ← here, Nat.mod_add_mod, Nat.add_assoc]
        apply wp_mono (induction (i + 1) next (storeBytes_tables apart _ _ kept))
        rintro result after ⟨k, reach, rfl, rfl⟩
        refine ⟨k + 1, .cons accessible reach, ?_, ?_⟩
        · rw [Prod.mk.injEq, pipeAdvance_take]
          refine ⟨by omega, ?_⟩
          split
          · rw [if_pos (by omega)]
          · rw [if_neg (by omega)]
        · rw [queued_succ, pipeByte_zero, ← funext (pipeByte_take pi)]
          rfl
      · intro fault
        refine wp_pure.mpr ⟨0, ⟨Nat.zero_le _, by omega, fun _ => fault⟩, ?_, rfl⟩
        rw [if_neg (by omega), ← pipeAdvance_take, pipeAdvance_zero, Nat.add_zero]

end Pipe

/-! ## `consoleread` -/

section Console

variable {allowed : String → Prop} {table : Nat} {before : Memory}

/-- The byte at position `j` of the input. -/
def consByte (cons : Console.Cons) (j : Nat) : UInt8 := cons.get (cons.r + UInt32.ofNat j)

def consLength (cons : Console.Cons) : Nat := (cons.w - cons.r).toNat

/-- The input after `m` bytes have been taken. -/
def consAdvance (cons : Console.Cons) (m : Nat) : Console.Cons :=
  { cons with r := cons.r + UInt32.ofNat m }

/-- How many of `m` bytes belong to the first line. -/
def lineLength (byte : Nat → UInt8) : Nat → Nat
  | 0 => 0
  | m + 1 =>
    if byte 0 = Console.lf then 1 else lineLength (fun j => byte (j + 1)) m + 1

theorem consByte_zero (cons : Console.Cons) : consByte cons 0 = cons.get cons.r := by
  simp [consByte]

theorem consAdvance_zero (cons : Console.Cons) : consAdvance cons 0 = cons := by
  simp [consAdvance]

theorem consByte_succ (cons : Console.Cons) (j : Nat) :
    consByte { cons with r := cons.r + 1 } j = consByte cons (j + 1) := by
  rw [consByte, consByte, ring_shift]
  rfl

theorem consAdvance_succ (cons : Console.Cons) (m : Nat) :
    consAdvance { cons with r := cons.r + 1 } m = consAdvance cons (m + 1) := by
  rw [consAdvance, consAdvance, ring_shift]

/-- What a read gives back that has got `k` more bytes, out of `line` that were there. -/
def Got (target n k line : Nat) : ReadEnd → Prop
  | .returned count => count = target - n + k
  | .killed | .asleep => k = line

theorem Got.succ (got : Got target n k line ended) :
    Got target (n + 1) (k + 1) (line + 1) ended := by
  cases ended with
  | returned count =>
    rw [Got] at got ⊢
    push_cast
    omega
  | killed | asleep => exact congrArg (· + 1) got

theorem consolereadFrom_spec (apart : TablesApart before.cell table) {killed : Bool} {target : Nat}
    (n : Nat) {dst : Nat} {cons : Console.Cons} {memory : Memory}
    (noEof : ∀ j < min n (consLength cons), consByte cons j ≠ Console.ctrl 'D')
    (kept : ∀ page ∈ tables before.cell 2 table, memory.cell page = before.cell page) :
    wp allowed (consolereadFrom table killed target n dst cons) memory fun result after =>
      ∃ k, Reach before.cell table dst (lineLength (consByte cons) (min n (consLength cons))) k ∧
        result.2 = consAdvance cons
          (if k = lineLength (consByte cons) (min n (consLength cons)) then k else k + 1) ∧
        after = { memory with
          cell := storeBytes (userPage before.cell table) (queued (consByte cons) k) dst
            memory.cell } ∧
        Got target n k (lineLength (consByte cons) (min n (consLength cons))) result.1 := by
  induction n generalizing dst cons memory with
  | zero =>
    rw [Nat.zero_min]
    refine wp_pure.mpr ⟨0, .zero, ?_, rfl, ?_⟩
    · rw [lineLength, if_pos rfl, consAdvance_zero]
    · rw [Got]
      omega
  | succ n induction =>
    unfold consolereadFrom
    split
    · rename_i empty
      have zero : consLength cons = 0 := by
        rw [consLength, empty, UInt32.sub_self]
        rfl
      rw [zero, Nat.min_zero]
      refine wp_pure.mpr ⟨0, .zero, ?_, rfl, ?_⟩
      · rw [lineLength, if_pos rfl, consAdvance_zero]
      · cases killed <;> rfl
    · rename_i nonempty
      have length : consLength cons = consLength { cons with r := cons.r + 1 } + 1 :=
        ring_length nonempty
      have total : min (n + 1) (consLength cons) =
          min n (consLength { cons with r := cons.r + 1 }) + 1 := by omega
      have first := noEof 0 (by omega)
      rw [consByte_zero] at first
      rw [total]
      simp only [if_neg first, lineLength, consByte_zero]
      apply wp_bind.mpr
      apply wp_copyoutByte apart kept
      · intro accessible
        by_cases newline : cons.get cons.r = Console.lf
        · simp only [if_true, if_pos newline]
          refine wp_pure.mpr ⟨1, .cons accessible .zero, ?_, ?_, ?_⟩
          · rw [if_pos rfl, ← consAdvance_succ, consAdvance_zero]
          · rw [queued_succ, consByte_zero]
            rfl
          · rw [Got]
            push_cast
            omega
        · simp only [if_true, if_neg newline]
          rw [next_address accessible]
          have bytes := funext (consByte_succ cons)
          have noEof' : ∀ j < min n (consLength { cons with r := cons.r + 1 }),
              consByte { cons with r := cons.r + 1 } j ≠ Console.ctrl 'D' := by
            intro j below
            rw [consByte_succ]
            exact noEof (j + 1) (by omega)
          apply wp_mono (induction noEof' (storeBytes_tables apart _ _ kept))
          rw [bytes]
          rintro result after ⟨k, reach, advanced, rfl, got⟩
          refine ⟨k + 1, .cons accessible reach, ?_, ?_, ?_⟩
          · rw [advanced, consAdvance_succ]
            split
            · rw [if_pos (by omega)]
            · rw [if_neg (by omega)]
          · rw [queued_succ, consByte_zero]
            rfl
          · exact got.succ
      · intro fault
        have positive : (if cons.get cons.r = Console.lf then 1 else
            lineLength (fun j => consByte cons (j + 1))
              (min n (consLength { cons with r := cons.r + 1 })) + 1) ≠ 0 := by
          split <;> omega
        simp only [Bool.false_eq_true, if_false]
        refine wp_pure.mpr ⟨0, ⟨Nat.zero_le _, by omega, fun _ => fault⟩, ?_, rfl, ?_⟩
        · rw [if_neg positive.symm, ← consAdvance_succ, consAdvance_zero]
        · rw [Got]
          push_cast
          omega

end Console

/-! ## What a read takes and what it delivers -/

section Keeps

variable {Queue : Type} {table dst : Nat} {memory : Memory}

/-- As many bytes have been taken from the queue as have been stored in user memory, and
that is what is returned, with the `already` bytes that the call had stored before. -/
def Keeps (advance : Nat → Queue) (byte : Nat → UInt8) (table dst : Nat) (already : Int)
    (memory : Memory) (result : ReadEnd × Queue) (after : Memory) : Prop :=
  ∃ k, (∀ i < k, Accessible memory.cell table (dst + i)) ∧ result.2 = advance k ∧
    after = { memory with
      cell := storeBytes (userPage memory.cell table) (queued byte k) dst memory.cell } ∧
    ∀ count, result.1 = .returned count → count = already + k

theorem ring_ne (r : UInt32) (k : Nat) : r + UInt32.ofNat (k + 1) ≠ r + UInt32.ofNat k := by
  intro same
  have numbers := congrArg UInt32.toNat same
  rw [UInt32.toNat_add, UInt32.toNat_add, UInt32.toNat_ofNat', UInt32.toNat_ofNat'] at numbers
  omega

/-- A read that has got `k` of `line` bytes, and takes one more where it stops early. -/
theorem keeps_iff {advance : Nat → Queue} {byte : Nat → UInt8} {already : Int} {line : Nat}
    {program : MemProg (ReadEnd × Queue)} (advances : ∀ k, advance (k + 1) ≠ advance k)
    (spec : wp NoPanic program memory fun result after =>
      ∃ k, Reach memory.cell table dst line k ∧
        result.2 = advance (if k = line then k else k + 1) ∧
        after = { memory with
          cell := storeBytes (userPage memory.cell table) (queued byte k) dst memory.cell } ∧
        ((∃ count, result.1 = .returned count) ∨ k = line) ∧
        ∀ count, result.1 = .returned count → count = already + k) :
    wp NoPanic program memory (Keeps advance byte table dst already memory) ↔
      ∀ i < line, Accessible memory.cell table (dst + i) := by
  constructor
  · intro keeps
    rcases Prog.wp_meet (fun _ => id) keeps spec with
      ⟨result, after, ⟨k', _, advanced', _, count'⟩, k, reach, advanced, _, ends, count⟩
    apply reach.eq_iff.mp
    rcases ends with ⟨value, returned⟩ | all
    · have same : k' = k := by
        have first := count' value returned
        have second := count value returned
        omega
      by_contra early
      rw [if_neg early, advanced', same] at advanced
      exact advances k advanced.symm
    · exact all
  · intro accessible
    apply wp_mono spec
    rintro result after ⟨k, reach, advanced, stored, _, count⟩
    have all := reach.eq_iff.mpr accessible
    rw [if_pos all] at advanced
    exact ⟨k, reach.accessible, advanced, stored, count⟩

/-- `piperead` and `consoleread` lose no input exactly where the bytes that are there to be
read, up to the number asked for and for the console up to the end of the line, have
accessible destinations. -/
theorem reads_keep_iff (apart : TablesApart memory.cell table) :
    (∀ (addr : Nat) (n : Int) (killed : Bool) (pi : Pipes.Pipe), addr < 2 ^ 64 →
      (wp NoPanic (piperead table addr n killed pi) memory
          (Keeps (pipeAdvance pi) (pipeByte pi) table addr 0 memory) ↔
        ∀ i < min n.toNat (pipeLength pi), Accessible memory.cell table (addr + i))) ∧
    ∀ (dst target n : Nat) (killed : Bool) (cons : Console.Cons),
      (∀ j < min n (consLength cons), consByte cons j ≠ Console.ctrl 'D') →
      (wp NoPanic (consolereadFrom table killed target n dst cons) memory
          (Keeps (consAdvance cons) (consByte cons) table dst (target - n) memory) ↔
        ∀ i < lineLength (consByte cons) (min n (consLength cons)),
          Accessible memory.cell table (dst + i)) := by
  constructor
  · intro addr n killed pi isAddress
    apply keeps_iff
    · intro k same
      exact ring_ne _ k (congrArg Pipes.Pipe.nread same)
    · unfold piperead
      split
      · rename_i waits
        have zero : pipeLength pi = 0 := by
          rw [Bool.and_eq_true, Pipes.Pipe.empty, decide_eq_true_iff] at waits
          rw [pipeLength, waits.1, UInt32.sub_self]
          rfl
        rw [zero, Nat.min_zero]
        refine wp_pure.mpr ⟨0, .zero, (pipeAdvance_zero pi).symm, rfl, .inr rfl, ?_⟩
        intro count returned
        cases killed <;> cases returned
      · apply wp_bind.mpr
        apply wp_mono (pipereadFrom_spec apart n.toNat 0
          (by rw [Nat.add_zero, Nat.mod_eq_of_lt isAddress]) fun _ _ => rfl)
        rintro result after ⟨k, reach, rfl, rfl⟩
        refine wp_pure.mpr ⟨k, reach, rfl, rfl, .inl ⟨_, rfl⟩, ?_⟩
        intro count returned
        cases returned
        push_cast
        omega
  · intro dst target n killed cons noEof
    apply keeps_iff
    · intro k same
      exact ring_ne _ k (congrArg Console.Cons.r same)
    · apply wp_mono (consolereadFrom_spec apart n noEof fun _ _ => rfl)
      rintro result after ⟨k, reach, advanced, stored, got⟩
      refine ⟨k, reach, advanced, stored, ?_, ?_⟩
      · cases ended : result.1 with
        | returned count => exact .inl ⟨count, rfl⟩
        | killed | asleep =>
          rw [ended] at got
          exact .inr got
      · intro count returned
        rw [returned] at got
        exact got

end Keeps

/-! A byte in a pipe and in the console, and a page table that maps one page. -/

def onePipe : Pipes.Pipe :=
  { data := fun _ => 7, nread := 0, nwrite := 1, readopen := true, writeopen := true }

def oneCons : Console.Cons := { buf := fun _ => 7, r := 0, w := 1, e := 1 }

theorem reads_keep_iff_small :
    wp NoPanic (piperead smallOld 0 1 false onePipe) smallParent
        (Keeps (pipeAdvance onePipe) (pipeByte onePipe) smallOld 0 0 smallParent) ↔
      ∀ i < min 1 (pipeLength onePipe), Accessible smallParent.cell smallOld (0 + i) :=
  (reads_keep_iff smallParent_apart).1 0 1 false onePipe (by decide)

def lostPipeRead : Outcome ((ReadEnd × Pipes.Pipe) × Memory) :=
  Prog.run StateOp.handle (piperead smallOld pgSize 1 false onePipe) smallParent []

def lostConsoleRead : Outcome ((ReadEnd × Console.Cons) × Memory) :=
  Prog.run StateOp.handle (consoleread smallOld pgSize 1 false oneCons) smallParent []

theorem reads_lose_byte :
    (∃ pi after, lostPipeRead = .next ((.returned 0, pi), after) ∧ pi.nread = onePipe.nread + 1) ∧
    ∃ cons after, lostConsoleRead = .next ((.returned 0, cons), after) ∧
      cons.r = oneCons.r + 1 := by
  constructor
  · have none : (lostPipeRead.getD ((.asleep, onePipe), smallParent)).1.1 = .returned 0 := by
      decide +kernel
    exact ⟨_, _, Outcome.eq_next_pair _ (by decide +kernel) (Prod.ext none rfl), by decide +kernel⟩
  · have none : (lostConsoleRead.getD ((.asleep, oneCons), smallParent)).1.1 = .returned 0 := by
      decide +kernel
    exact ⟨_, _, Outcome.eq_next_pair _ (by decide +kernel) (Prod.ext none rfl), by decide +kernel⟩

end Xv6.Reads
