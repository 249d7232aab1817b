import Xv6.Foundation.Transition
import Mathlib.Data.List.Basic

/-! # Console input: `kernel/console.c`

`cons.lock` is held from the start of `consoleintr` to its end, and in
`consoleread` from one `sleep` to the next, so that a step is one call of
`consoleintr` or what `consoleread` does until it sleeps or returns. The rules for
the readers do not depend on how the input is kept, and are used for the ring of
`console.c` and for the reference line discipline. -/

namespace Xv6.Console

def inputBufSize : Nat := 128

/-- `C(x)`: Control-x. -/
def ctrl (x : Char) : UInt8 := UInt8.ofNat (x.toNat - '@'.toNat)

def lf : UInt8 := 10

def cr : UInt8 := 13

/-- `'\x7f'`. -/
def del : UInt8 := 127

/-- Why a read has returned. -/
inductive Why where
  | count
  | newline
  | endOfFile
  | killed
  deriving DecidableEq

/-- How `consoleread` stops: it returns a value, or sleeps with bytes still to read. -/
inductive Ended where
  | returned (value : Int) (why : Why)
  | asleep (n : Nat)
  deriving DecidableEq

/-! ## Readers -/

/-- A running `consoleread`: what it still has to read, what it was called with, and
the bytes that it has copied out. -/
structure Read where
  n : Nat
  target : Nat
  got : List UInt8

inductive Reader where
  | idle
  /-- In `sleep(&cons.r, &cons.lock)`. -/
  | asleep (read : Read)
  /-- Woken, and about to take `cons.lock` again. -/
  | woken (read : Read)

/-- A read that has returned. -/
structure Return where
  wanted : Nat
  got : List UInt8
  value : Int
  why : Why

/-- The readers, all bytes that they have got, in order, and the reads that have
returned. -/
structure Readers where
  reader : Nat → Reader
  delivered : List UInt8
  returned : List Return

namespace Readers

def start : Readers where
  reader := fun _ => .idle
  delivered := []
  returned := []

/-- A reader copies out some bytes and then returns or sleeps. -/
def advance (readers : Readers) (p : Nat) (read : Read) (bytes : List UInt8) (ended : Ended) :
    Readers :=
  let got := read.got ++ bytes
  match ended with
  | .returned value why =>
    { reader := Function.update readers.reader p .idle, delivered := readers.delivered ++ bytes
      returned := readers.returned ++ [⟨read.target, got, value, why⟩] }
  | .asleep n =>
    { readers with
      reader := Function.update readers.reader p (.asleep { read with n := n, got := got })
      delivered := readers.delivered ++ bytes }

def wake : Reader → Reader
  | .asleep read => .woken read
  | reader => reader

/-- `wakeup(&cons.r)`. -/
def wakeup (readers : Readers) : Readers :=
  { readers with reader := fun p => wake (readers.reader p) }

end Readers

/-- Something that keeps console input: it takes a character, and tells whether it wakes
the readers up; and it is read, by a process that may have been killed. -/
structure Device (Queue : Type) where
  input : Queue → UInt8 → Queue × Bool
  read : Queue → Bool → (target n : Nat) → Queue × List UInt8 × Ended

structure State (Queue : Type) where
  queue : Queue
  readers : Readers

inductive Label where
  /-- An interrupt brings a character. -/
  | intr (c : UInt8)
  /-- A process calls `consoleread`; it may have been killed. -/
  | read (p : Nat) (n : Int) (killed : Bool)
  /-- A reader that was woken goes on. -/
  | resume (p : Nat) (killed : Bool)
  /-- `kill` wakes a reader. -/
  | kill (p : Nat)

section Step

variable {Queue : Type} (device : Device Queue) (state : State Queue)

/-- A reader runs until it sleeps or returns. -/
def runReader (p : Nat) (read : Read) (killed : Bool) : State Queue :=
  let result := device.read state.queue killed read.target read.n
  { queue := result.1, readers := state.readers.advance p read result.2.1 result.2.2 }

def step : Label → Outcome (State Queue)
  | .intr c =>
    let result := device.input state.queue c
    .next
      { queue := result.1, readers := if result.2 then state.readers.wakeup else state.readers }
  | .read p n killed =>
    match state.readers.reader p with
    | .idle => .next (runReader device state p ⟨n.toNat, n.toNat, []⟩ killed)
    | _ => .disabled
  | .resume p killed =>
    match state.readers.reader p with
    | .woken read => .next (runReader device state p read killed)
    | _ => .disabled
  | .kill p =>
    .next { state with
      readers := { state.readers with
        reader := Function.update state.readers.reader p (Readers.wake (state.readers.reader p)) } }

end Step

/-! ## The ring of `console.c` -/

/-- The anonymous structure `cons`. -/
structure Cons where
  buf : Nat → UInt8
  r : UInt32
  w : UInt32
  e : UInt32

namespace Cons

/-- `cons.buf[index % INPUT_BUF_SIZE]`. -/
def get (cons : Cons) (index : UInt32) : UInt8 := cons.buf (index.toNat % inputBufSize)

def set (cons : Cons) (index : UInt32) (c : UInt8) : Cons :=
  { cons with buf := Function.update cons.buf (index.toNat % inputBufSize) c }

/-- The loop of Control-U. It runs at most `cons.e - cons.w` times. -/
def killLine : Nat → Cons → Cons
  | 0, cons => cons
  | rounds + 1, cons =>
    if cons.e ≠ cons.w ∧ cons.get (cons.e - 1) ≠ lf then
      killLine rounds { cons with e := cons.e - 1 }
    else cons

/-- The default case of `consoleintr`: store a character, and wake up the readers if a
whole line has arrived. -/
def store (cons : Cons) (c : UInt8) : Cons × Bool :=
  if c ≠ 0 ∧ cons.e - cons.r < 128 then
    let c := if c = cr then lf else c
    let cons : Cons := { cons.set cons.e c with e := cons.e + 1 }
    if c = lf ∨ c = ctrl 'D' ∨ cons.e - cons.r = 128 then ({ cons with w := cons.e }, true)
    else (cons, false)
  else (cons, false)

/-- `consoleintr`; the echo and the process list go to the other side. -/
def consoleintr (cons : Cons) (c : UInt8) : Cons × Bool :=
  if c = ctrl 'P' then (cons, false)
  else if c = ctrl 'U' then (cons.killLine (cons.e - cons.w).toNat, false)
  else if c = ctrl 'H' ∨ c = del then
    (if cons.e ≠ cons.w then { cons with e := cons.e - 1 } else cons, false)
  else cons.store c

/-- The loop of `consoleread`, from one `sleep` to the next; every copy to the
destination succeeds. -/
def consoleread (cons : Cons) (killed : Bool) (target : Nat) :
    Nat → Cons × List UInt8 × Ended
  | 0 => (cons, [], .returned target .count)
  | n + 1 =>
    if cons.r = cons.w then
      if killed then (cons, [], .returned (-1) .killed) else (cons, [], .asleep (n + 1))
    else
      let c := cons.get cons.r
      let next := { cons with r := cons.r + 1 }
      if c = ctrl 'D' then
        (if n + 1 < target then { next with r := next.r - 1 } else next, [],
          .returned (target - (n + 1)) .endOfFile)
      else if c = lf then (next, [c], .returned (target - n) .newline)
      else
        let rest := consoleread next killed target n
        (rest.1, c :: rest.2.1, rest.2.2)

end Cons

/-- The console of the kernel. -/
def console : Device Cons where
  input := Cons.consoleintr
  read := Cons.consoleread

/-- After `consoleinit`; the buffer may hold anything. -/
def boot (buf : Nat → UInt8) : State Cons where
  queue := { buf := buf, r := 0, w := 0, e := 0 }
  readers := .start

end Xv6.Console
