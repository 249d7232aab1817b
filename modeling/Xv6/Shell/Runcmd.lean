import Mathlib.Logic.Function.Basic
import Xv6.Foundation.Transition
import Xv6.Param
import Xv6.Shell.Parser

/-! # `runcmd` of `user/sh.c`

The processes that run a command, with their descriptor tables. What a process
has still to do is a list of system calls; `runcmd` of a subtree is a call as
well. Any process that is not waiting can move next. -/

namespace Xv6.Shell

open Function (update)

/-- The constructs that the way to a subtree goes through. -/
inductive Turn (α : Type) where
  | redir (file : α) (mode fd : Nat)
  | pipeLeft
  | pipeRight
  | listLeft
  | listRight
  | back
  deriving DecidableEq

/-- The way from the root to a subtree, with the construct nearest to the subtree first. -/
abbrev Path (α : Type) := List (Turn α)

/-- What a descriptor refers to. A pipe has the name of the command that made it. -/
inductive Open (α : Type) where
  | inherited (fd : Nat)
  | file (name : α) (mode : Nat)
  | readEnd (node : Path α)
  | writeEnd (node : Path α)
  deriving DecidableEq

/-- `ofile` -/
abbrev Table (α : Type) := Nat → Option (Open α)

def fdalloc (table : Table α) : Option Nat :=
  (List.range nofile).find? fun fd => (table fd).isNone

/-- A descriptor in the code: a number, or an element of the array `p`. -/
inductive Operand where
  | fd (fd : Nat)
  | p0
  | p1

inductive Call (α : Type) where
  | close (operand : Operand)
  | dup (operand : Operand)
  | open_ (file : α) (mode : Nat)
  | pipe
  /-- `if(fork1() == 0)`, with the construct for which the child is made. -/
  | fork (turn : Turn α) (cmd : Cmd α)
  | wait
  | exec (argv : List α)
  | exit (status : Nat)
  | runcmd (turn : Turn α) (cmd : Cmd α)

/-- The cases of the `switch` of `runcmd`. -/
def body : Cmd α → List (Call α)
  | .exec [] => [.exit 1]
  | .exec (word :: words) => [.exec (word :: words), .exit 0]
  | .redir cmd file mode fd =>
    [.close (.fd fd), .open_ file mode, .runcmd (.redir file mode fd) cmd]
  | .list left right => [.fork .listLeft left, .wait, .runcmd .listRight right]
  | .pipe left right =>
    [.pipe, .fork .pipeLeft left, .fork .pipeRight right, .close .p0, .close .p1, .wait, .wait,
      .exit 0]
  | .back cmd => [.fork .back cmd, .exit 0]

/-- What the child does after `fork1`. -/
def childBody : Turn α → Cmd α → List (Call α)
  | .pipeLeft, cmd =>
    [.close (.fd 1), .dup .p1, .close .p0, .close .p1, .runcmd .pipeLeft cmd]
  | .pipeRight, cmd =>
    [.close (.fd 0), .dup .p0, .close .p0, .close .p1, .runcmd .pipeRight cmd]
  | turn, cmd => [.runcmd turn cmd]

/-- A process in the shell: what it has still to do, its descriptors, the array `p`, and
the command that it runs. -/
structure Core (α : Type) where
  path : Path α
  code : List (Call α)
  table : Table α
  p : Nat × Nat

inductive Status where
  | shell
  /-- `exec` has succeeded. -/
  | program
  | zombie
  | reaped
  deriving DecidableEq

structure Proc (α : Type) where
  core : Core α
  status : Status
  parent : Option Nat

/-- The processes, how many there have been, and the commands that have called `pipe`. -/
structure State (α : Type) where
  proc : Nat → Proc α
  next : Nat
  pipes : List (Path α)

inductive Choice where
  | go
  /-- `exec` fails. -/
  | fail
  /-- `wait` finds the child. -/
  | reap (child : Nat)
  deriving DecidableEq

namespace Core

variable (core : Core α)

def operand : Operand → Nat
  | .fd fd => fd
  | .p0 => core.p.1
  | .p1 => core.p.2

def close (fd : Nat) : Core α := { core with table := update core.table fd none }

/-- `fdalloc` for an open file, or nothing if the table is full. -/
def install (file : Open α) : Core α :=
  match fdalloc core.table with
  | some fd => { core with table := update core.table fd (some file) }
  | none => core

def dup (fd : Nat) : Core α :=
  match core.table fd with
  | some file => core.install file
  | none => core

/-- `open`, and `exit(1)` if it fails. -/
def open_ (name : α) (mode : Nat) : Core α :=
  match fdalloc core.table with
  | some fd => { core with table := update core.table fd (some (.file name mode)) }
  | none => { core with code := [.exit 1] }

/-- `pipe(p)` -/
def pipe : Option (Core α) := do
  let fd0 ← fdalloc core.table
  let table := update core.table fd0 (some (.readEnd core.path))
  let fd1 ← fdalloc table
  some { core with
    table := update table fd1 (some (.writeEnd core.path)), p := (fd0, fd1) }

def fork (turn : Turn α) (cmd : Cmd α) : Core α := { core with code := childBody turn cmd }

def runcmd (turn : Turn α) (cmd : Cmd α) : Core α :=
  { core with path := turn :: core.path, code := body cmd }

def exit : Core α := { core with code := [], table := fun _ => none }

end Core

namespace State

variable (state : State α)

def setProc (pid : Nat) (proc : Proc α) : State α :=
  { state with proc := update state.proc pid proc }

def setCore (pid : Nat) (core : Core α) : State α :=
  state.setProc pid { state.proc pid with core }

/-- `exit`: the children get another parent. -/
def exit (pid : Nat) : State α :=
  { state with
    proc := update
      (fun q => if (state.proc q).parent = some pid then { state.proc q with parent := none }
        else state.proc q)
      pid { state.proc pid with core := (state.proc pid).core.exit, status := .zombie } }

def Childless (pid : Nat) : Prop := ∀ q < state.next, (state.proc q).parent ≠ some pid

instance (pid : Nat) : Decidable (state.Childless pid) := by
  unfold Childless
  infer_instance

end State

section Steps

variable (state : State α) (pid : Nat)

/-- A call that can be made in one way only. -/
def goes (choice : Choice) (next : State α) : Outcome (State α) :=
  if choice = .go then .next next else .disabled

def waitStep (core : Core α) : Choice → Outcome (State α)
  | .go => if state.Childless pid then .next (state.setCore pid core) else .disabled
  | .reap q =>
    if q < state.next ∧ (state.proc q).parent = some pid ∧ (state.proc q).status = .zombie then
      .next ((state.setCore pid core).setProc q
        { (state.setCore pid core).proc q with status := .reaped, parent := none })
    else .disabled
  | .fail => .disabled

def execStep (core : Core α) : Choice → Outcome (State α)
  | .go => .next (state.setProc pid
      { state.proc pid with core := { core with code := [] }, status := .program })
  | .fail => .next (state.setCore pid core)
  | .reap _ => .disabled

/-- The next call of a process; `core` is the process after the call. -/
def callStep (choice : Choice) (call : Call α) (core : Core α) : Outcome (State α) :=
  match call with
  | .close operand => goes choice (state.setCore pid (core.close (core.operand operand)))
  | .dup operand => goes choice (state.setCore pid (core.dup (core.operand operand)))
  | .open_ file mode => goes choice (state.setCore pid (core.open_ file mode))
  | .pipe =>
    match core.pipe with
    | some made =>
      goes choice { state.setCore pid made with pipes := core.path :: state.pipes }
    | none => .panic "pipe"
  | .fork turn cmd =>
    goes choice { (state.setCore pid core).setProc state.next
      { core := core.fork turn cmd, status := .shell, parent := some pid } with
      next := state.next + 1 }
  | .wait => waitStep state pid core choice
  | .exec _ => execStep state pid core choice
  | .exit _ => goes choice (state.exit pid)
  | .runcmd turn cmd => goes choice (state.setCore pid (core.runcmd turn cmd))

end Steps

def step (state : State α) (label : Nat × Choice) : Outcome (State α) :=
  if label.1 < state.next then
    match (state.proc label.1).status with
    | .shell =>
      match (state.proc label.1).core.code with
      | call :: rest =>
        callStep state label.1 label.2 call { (state.proc label.1).core with code := rest }
      | [] => .disabled
    | .program => goes label.2 (state.exit label.1)
    | .zombie => .disabled
    | .reaped => .disabled
  else .disabled

/-- The descriptors 0, 1 and 2. -/
def standardTable (source : Nat → Open α) : Table α :=
  fun fd => if fd < 3 then some (source fd) else none

/-- A process that calls `runcmd` with the descriptors 0, 1 and 2 open. -/
def boot (root : Cmd α) : State α where
  proc := fun pid =>
    if pid = 0 then
      { core := ⟨[], body root, standardTable .inherited, (0, 0)⟩, status := .shell, parent := none }
    else { core := ⟨[], [], fun _ => none, (0, 0)⟩, status := .reaped, parent := none }
  next := 1
  pipes := []

end Xv6.Shell
