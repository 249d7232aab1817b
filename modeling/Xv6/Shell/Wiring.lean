import Mathlib.Data.List.Infix
import Mathlib.Data.List.Nodup
import Xv6.Shell.Runcmd
import Xv6.Shell.Grammar

/-! # The descriptors of the commands

What each process of a running command has open, at every call that it makes. -/

namespace Xv6.Shell

open Function (update update_self update_of_ne update_apply update_eq_self update_idem update_comm)

variable {α : Type}

/-! ## What a leaf should have open -/

/-- What a construct makes a descriptor of the commands under it refer to. -/
def Turn.affects (node : Path α) : Turn α → Nat → Option (Open α)
  | .redir file mode fd, i => if i = fd then some (.file file mode) else none
  | .pipeRight, i => if i = 0 then some (.readEnd node) else none
  | .pipeLeft, i => if i = 1 then some (.writeEnd node) else none
  | .listLeft, _ => none
  | .listRight, _ => none
  | .back, _ => none

/-- The construct nearest to the leaf that affects a descriptor decides. -/
def source : Path α → Nat → Open α
  | [], fd => .inherited fd
  | turn :: path, fd =>
    match turn.affects path fd with
    | some file => file
    | none => source path fd

/-- A construct and the subtree that it leads to. -/
inductive Child : Turn α → Cmd α → Cmd α → Prop
  | redir {cmd file mode fd} : Child (.redir file mode fd) (.redir cmd file mode fd) cmd
  | pipeLeft {left right} : Child .pipeLeft (.pipe left right) left
  | pipeRight {left right} : Child .pipeRight (.pipe left right) right
  | listLeft {left right} : Child .listLeft (.list left right) left
  | listRight {left right} : Child .listRight (.list left right) right
  | back {cmd} : Child .back (.back cmd) cmd

/-- The subtree at the end of a path. -/
inductive Leads (root : Cmd α) : Path α → Cmd α → Prop
  | root : Leads root [] root
  | turn {path turn cmd sub} : Leads root path cmd → Child turn cmd sub →
      Leads root (turn :: path) sub

/-- A redirection is of one of the descriptors 0, 1 and 2. -/
def Cmd.Standard : Cmd α → Prop
  | .exec _ => True
  | .redir cmd _ _ fd => fd < 3 ∧ cmd.Standard
  | .pipe left right => left.Standard ∧ right.Standard
  | .list left right => left.Standard ∧ right.Standard
  | .back cmd => cmd.Standard

theorem Leads.standard {root : Cmd α} (standard : root.Standard) {path : Path α}
    (leads : Leads root path cmd) : cmd.Standard := by
  induction leads with
  | root => exact standard
  | turn leads child induction =>
    cases child with
    | redir | pipeRight | listRight => exact induction.2
    | pipeLeft | listLeft => exact induction.1
    | back => exact induction

/-! ## What a step does -/

def State.cores (state : State α) (pid : Nat) : Core α := (state.proc pid).core

/-- What a call does to the process that makes it; `core` has the rest of its code. -/
inductive Calls : Call α → Core α → Core α → Prop
  | close {core} (operand) : Calls (.close operand) core (core.close (core.operand operand))
  | dup {core} (operand) : Calls (.dup operand) core (core.dup (core.operand operand))
  | open_ {core} (file mode) : Calls (.open_ file mode) core (core.open_ file mode)
  | wait {core} : Calls .wait core core
  | failed {core} (argv) : Calls (.exec argv) core core
  | exec {core} (argv) : Calls (.exec argv) core { core with code := [] }
  | exit {core} (status) : Calls (.exit status) core core.exit
  | runcmd {core} (turn cmd) : Calls (.runcmd turn cmd) core (core.runcmd turn cmd)

/-- What a step of a process does to the processes and to the pipes. -/
inductive Moves (state next : State α) (pid : Nat) : Prop
  | call {call rest core} : (state.cores pid).code = call :: rest →
      Calls call { state.cores pid with code := rest } core →
      next.cores = update state.cores pid core → next.next = state.next →
      next.pipes = state.pipes → Moves state next pid
  | ends : next.cores = update state.cores pid (state.cores pid).exit →
      next.next = state.next → next.pipes = state.pipes → Moves state next pid
  | pipe {rest core} : (state.cores pid).code = .pipe :: rest →
      Core.pipe { state.cores pid with code := rest } = some core →
      next.cores = update state.cores pid core → next.next = state.next →
      next.pipes = (state.cores pid).path :: state.pipes → Moves state next pid
  | fork {turn cmd rest} :
      (state.cores pid).code = .fork turn cmd :: rest →
      next.cores = update (update state.cores pid { state.cores pid with code := rest }) state.next
        { state.cores pid with code := childBody turn cmd } →
      next.next = state.next + 1 → next.pipes = state.pipes → Moves state next pid

section

variable (state : State α) (pid : Nat)

include state pid

theorem cores_setProc (proc : Proc α) :
    (state.setProc pid proc).cores = update state.cores pid proc.core := by
  funext q
  simp only [State.cores, State.setProc, update_apply]
  split <;> rfl

theorem cores_setProc_same {proc : Proc α} (same : proc.core = state.cores pid) :
    (state.setProc pid proc).cores = state.cores := by
  rw [cores_setProc, same, update_eq_self]

theorem cores_setCore (core : Core α) :
    (state.setCore pid core).cores = update state.cores pid core :=
  cores_setProc state pid _

theorem cores_exit : (state.exit pid).cores = update state.cores pid (state.cores pid).exit := by
  funext q
  simp only [State.cores, State.exit, update_apply]
  split
  · rfl
  · split <;> rfl

end

variable {choice : Choice}

theorem goes_next {state next : State α} (stepEq : goes choice state = .next next) :
    state = next := by
  rw [goes] at stepEq
  split at stepEq
  · cases stepEq
    rfl
  · cases stepEq

variable {pid : Nat}

theorem waitStep_moves {state next : State α} (code : (state.cores pid).code = .wait :: rest)
    (stepEq : waitStep state pid { state.cores pid with code := rest } choice = .next next) :
    Moves state next pid := by
  cases choice with
  | fail => cases stepEq
  | go =>
    rw [waitStep] at stepEq
    split at stepEq
    · cases stepEq
      exact .call code .wait (cores_setCore _ _ _) rfl rfl
    · cases stepEq
  | reap q =>
    rw [waitStep] at stepEq
    split at stepEq
    · cases stepEq
      refine .call code .wait (Eq.trans ?_ (cores_setCore state pid _)) rfl rfl
      exact cores_setProc_same _ q rfl
    · cases stepEq

theorem execStep_moves {state next : State α} (code : (state.cores pid).code = .exec argv :: rest)
    (stepEq : execStep state pid { state.cores pid with code := rest } choice = .next next) :
    Moves state next pid := by
  cases choice with
  | reap q => cases stepEq
  | go =>
    cases stepEq
    exact .call code (.exec argv) (cores_setProc _ _ _) rfl rfl
  | fail =>
    cases stepEq
    exact .call code (.failed argv) (cores_setCore _ _ _) rfl rfl

theorem callStep_moves {state next : State α} (code : (state.cores pid).code = call :: rest)
    (stepEq : callStep state pid choice call { state.cores pid with code := rest } = .next next) :
    Moves state next pid := by
  cases call with
  | close operand =>
    cases goes_next stepEq
    exact .call code (.close operand) (cores_setCore _ _ _) rfl rfl
  | dup operand =>
    cases goes_next stepEq
    exact .call code (.dup operand) (cores_setCore _ _ _) rfl rfl
  | open_ file mode =>
    cases goes_next stepEq
    exact .call code (.open_ file mode) (cores_setCore _ _ _) rfl rfl
  | pipe =>
    rw [callStep] at stepEq
    split at stepEq
    · rename_i made equal
      cases goes_next stepEq
      exact .pipe code equal (cores_setCore state pid made) rfl rfl
    · cases stepEq
  | fork turn cmd =>
    cases goes_next stepEq
    refine .fork code ?_ rfl rfl
    show ((state.setCore pid _).setProc state.next _).cores = _
    rw [cores_setProc, cores_setCore]
    rfl
  | wait => exact waitStep_moves code stepEq
  | exec argv => exact execStep_moves code stepEq
  | exit status =>
    cases goes_next stepEq
    exact .call code (.exit status) (cores_exit _ _) rfl rfl
  | runcmd turn cmd =>
    cases goes_next stepEq
    exact .call code (.runcmd turn cmd) (cores_setCore _ _ _) rfl rfl

theorem step_moves {state next : State α} (stepEq : step state label = .next next) :
    label.1 < state.next ∧ Moves state next label.1 := by
  rw [step] at stepEq
  split at stepEq
  · rename_i inside
    refine ⟨inside, ?_⟩
    split at stepEq
    · split at stepEq
      · rename_i call rest code
        exact callStep_moves code stepEq
      · cases stepEq
    · cases goes_next stepEq
      exact .ends (cores_exit _ _) rfl rfl
    · cases stepEq
    · cases stepEq
  · cases stepEq

/-! ## The descriptors at each call -/

/-- The descriptors 0, 1 and 2 of a command. -/
def wired (path : Path α) : Table α := standardTable (source path)

/-- The descriptors after `pipe`: its ends are 3 and 4. -/
def piped (path : Path α) : Table α :=
  update (update (wired path) 3 (some (.readEnd path))) 4 (some (.writeEnd path))

/-- The constructs that affect no descriptor. -/
def Turn.Neutral (turn : Turn α) : Prop := turn = .listLeft ∨ turn = .listRight ∨ turn = .back

/-- The calls that leave the descriptors of a command as they are. -/
inductive Call.Neutral (root : Cmd α) (path : Path α) : Call α → Prop
  | wait : Call.Neutral root path .wait
  | exit (status) : Call.Neutral root path (.exit status)
  | exec {argv} : Leads root path (.exec argv) → Call.Neutral root path (.exec argv)
  | fork {turn cmd} : turn.Neutral → Leads root (turn :: path) cmd →
      Call.Neutral root path (.fork turn cmd)
  | runcmd {turn cmd} : turn.Neutral → Leads root (turn :: path) cmd →
      Call.Neutral root path (.runcmd turn cmd)

/-- What a process has open, for each call that it can be at. -/
inductive Wired (root : Cmd α) : Core α → Prop
  | neutral {path code p} : (∀ call ∈ code, Call.Neutral root path call) →
      Wired root ⟨path, code, wired path, p⟩
  | exited {path p} : Wired root ⟨path, [], fun _ => none, p⟩
  | redir {path cmd file mode fd p} : Leads root path (.redir cmd file mode fd) → fd < 3 →
      Wired root ⟨path, body (.redir cmd file mode fd), wired path, p⟩
  | redirClosed {path cmd file mode fd p} : Leads root path (.redir cmd file mode fd) → fd < 3 →
      Wired root ⟨path, [.open_ file mode, .runcmd (.redir file mode fd) cmd],
        update (wired path) fd none, p⟩
  | entering {path turn cmd p} : Leads root (turn :: path) cmd →
      Wired root ⟨path, [.runcmd turn cmd], wired (turn :: path), p⟩
  | pipe {path left right p} : Leads root path (.pipe left right) →
      Wired root ⟨path, body (.pipe left right), wired path, p⟩
  | pipeMade {path left right} : Leads root path (.pipe left right) →
      Wired root ⟨path, (body (.pipe left right)).drop 1, piped path, (3, 4)⟩
  | pipeForked {path left right} : Leads root path (.pipe left right) →
      Wired root ⟨path, (body (.pipe left right)).drop 2, piped path, (3, 4)⟩
  | pipeForkedBoth {path} :
      Wired root ⟨path, [.close .p0, .close .p1, .wait, .wait, .exit 0], piped path, (3, 4)⟩
  | pipeClosed {path} :
      Wired root ⟨path, [.close .p1, .wait, .wait, .exit 0], update (piped path) 3 none, (3, 4)⟩
  | left {path cmd} : Leads root (.pipeLeft :: path) cmd →
      Wired root ⟨path, childBody .pipeLeft cmd, piped path, (3, 4)⟩
  | leftClosed {path cmd} : Leads root (.pipeLeft :: path) cmd →
      Wired root ⟨path, (childBody .pipeLeft cmd).drop 1, update (piped path) 1 none, (3, 4)⟩
  | right {path cmd} : Leads root (.pipeRight :: path) cmd →
      Wired root ⟨path, childBody .pipeRight cmd, piped path, (3, 4)⟩
  | rightClosed {path cmd} : Leads root (.pipeRight :: path) cmd →
      Wired root ⟨path, (childBody .pipeRight cmd).drop 1, update (piped path) 0 none, (3, 4)⟩
  /-- The descriptor is in its place, and the ends of the pipe are still open. -/
  | placed {path turn cmd} {table : Table α} : Leads root (turn :: path) cmd →
      update (update table 3 none) 4 none = wired (turn :: path) →
      Wired root ⟨path, [.close .p0, .close .p1, .runcmd turn cmd], table, (3, 4)⟩
  | placedClosed {path turn cmd} {table : Table α} : Leads root (turn :: path) cmd →
      update table 4 none = wired (turn :: path) →
      Wired root ⟨path, [.close .p1, .runcmd turn cmd], table, (3, 4)⟩

variable {fd : Nat}

section Tables

variable (path : Path α)

theorem fdalloc_eq (inside : fd < nofile) (free : table fd = none)
    (below : ∀ other < fd, table other ≠ none) : fdalloc table = some fd := by
  rw [fdalloc, List.find?_range_eq_some]
  refine ⟨by simp [free], List.mem_range.mpr inside, ?_⟩
  intro other less
  simp only [Bool.not_eq_true', Option.isNone_eq_false_iff, Option.isSome_iff_ne_none]
  exact below other less

theorem wired_of_lt (low : fd < 3) : wired path fd = some (source path fd) := by
  rw [wired, standardTable, if_pos low]

theorem wired_of_ge (high : 3 ≤ fd) : wired path fd = none := by
  rw [wired, standardTable, if_neg (Nat.not_lt.mpr high)]

theorem fdalloc_wired : fdalloc (wired path) = some 3 := by
  apply fdalloc_eq (by decide) (wired_of_ge path (Nat.le_refl 3))
  intro other less
  rw [wired_of_lt path less]
  simp

theorem fdalloc_reading (file : Open α) :
    fdalloc (update (wired path) 3 (some file)) = some 4 := by
  apply fdalloc_eq (by decide)
  · rw [update_of_ne (by decide), wired_of_ge path (by decide)]
  · intro other less
    rw [update_apply]
    split
    · simp
    · rw [wired_of_lt path (by omega)]
      simp

theorem fdalloc_closed (low : fd < 3) (open_ : ∀ other < 3, table other ≠ none) :
    fdalloc (update table fd none) = some fd := by
  apply fdalloc_eq (Nat.lt_trans low (by decide)) (update_self _ _ _)
  intro other less
  rw [update_of_ne (Nat.ne_of_lt less)]
  exact open_ other (by omega)

theorem piped_open : ∀ fd < 3, piped path fd ≠ none := by
  intro fd low
  rw [piped, update_of_ne (by omega), update_of_ne (by omega), wired_of_lt path low]
  simp

theorem wired_open : ∀ fd < 3, wired path fd ≠ none := by
  intro fd low
  rw [wired_of_lt path low]
  simp

theorem wired_affects {turn : Turn α} (low : fd < 3)
    (affects : ∀ i, turn.affects path i = if i = fd then some file else none) :
    wired (turn :: path) = update (wired path) fd (some file) := by
  funext i
  rw [update_apply]
  by_cases inside : i < 3
  · rw [wired_of_lt _ inside, wired_of_lt _ inside, source, affects]
    split <;> simp_all
  · rw [wired_of_ge _ (by omega), wired_of_ge _ (by omega), if_neg (by omega)]

theorem wired_neutral {turn : Turn α} (neutral : turn.Neutral) :
    wired (turn :: path) = wired path := by
  funext i
  rcases neutral with equal | equal | equal <;> rw [equal] <;> rfl

theorem piped_close : update (update (piped path) 3 none) 4 none = wired path := by
  funext fd
  simp only [piped, update_apply]
  split
  · rw [wired_of_ge path (by omega)]
  · split
    · rw [wired_of_ge path (by omega)]
    · rfl

theorem piped_place {turn : Turn α} (low : fd < 3)
    (affects : ∀ i, turn.affects path i = if i = fd then some file else none) :
    update (update (update (piped path) fd (some file)) 3 none) 4 none = wired (turn :: path) := by
  rw [wired_affects path low affects, ← piped_close path,
    update_comm (show fd ≠ 3 by omega), update_comm (show fd ≠ 4 by omega)]

end Tables

theorem install_eq {core : Core α} (free : fdalloc core.table = some fd) (file : Open α) :
    core.install file = { core with table := update core.table fd (some file) } := by
  rw [Core.install, free]

theorem open_eq {core : Core α} (free : fdalloc core.table = some fd) (name : α) (mode : Nat) :
    core.open_ name mode =
      { core with table := update core.table fd (some (.file name mode)) } := by
  rw [Core.open_, free]

theorem dup_eq {core : Core α} (open_ : core.table fd = some file)
    (lowest : fdalloc core.table = some free) :
    core.dup fd = { core with table := update core.table free (some file) } := by
  rw [Core.dup, open_, ← install_eq lowest]

theorem pipe_eq {core : Core α} (table : core.table = wired core.path) :
    core.pipe = some { core with table := piped core.path, p := (3, 4) } := by
  simp only [Core.pipe, table, fdalloc_wired, fdalloc_reading, Option.bind_eq_bind,
    Option.bind_some, piped]

variable {p : Nat × Nat}

namespace Wired

variable {root : Cmd α} {core after : Core α} {call : Call α} {rest : List (Call α)}

theorem of_body (standard : root.Standard) {path : Path α} (leads : Leads root path cmd)
    (p : Nat × Nat) : Wired root ⟨path, body cmd, wired path, p⟩ := by
  cases cmd with
  | exec argv =>
    cases argv with
    | nil =>
      apply neutral
      simp only [body, List.mem_singleton, forall_eq]
      exact .exit 1
    | cons word words =>
      apply neutral
      simp only [body, List.mem_cons, List.not_mem_nil, or_false, forall_eq_or_imp, forall_eq]
      exact ⟨.exec leads, .exit 0⟩
  | redir cmd file mode fd => exact .redir leads (leads.standard standard).1
  | pipe left right => exact .pipe leads
  | list left right =>
    apply neutral
    simp only [body, List.mem_cons, List.not_mem_nil, or_false, forall_eq_or_imp, forall_eq]
    exact ⟨.fork (.inl rfl) (leads.turn .listLeft), .wait,
      .runcmd (.inr (.inl rfl)) (leads.turn .listRight)⟩
  | back cmd =>
    apply neutral
    simp only [body, List.mem_cons, List.not_mem_nil, or_false, forall_eq_or_imp, forall_eq]
    exact ⟨.fork (.inr (.inr rfl)) (leads.turn .back), .exit 0⟩

theorem called_neutral (standard : root.Standard) {path : Path α}
    (neutral : ∀ other ∈ call :: rest, Call.Neutral root path other)
    (calls : Calls call ⟨path, rest, wired path, p⟩ after) : Wired root after := by
  have tail : ∀ other ∈ rest, Call.Neutral root path other :=
    fun other member => neutral other (List.mem_cons_of_mem _ member)
  have head := neutral call List.mem_cons_self
  cases calls with
  | close | dup | open_ => cases head
  | wait | failed => exact .neutral tail
  | exec => exact .neutral (by simp)
  | exit => exact .exited
  | runcmd turn cmd =>
    cases head with
    | runcmd quiet leads =>
      have result := of_body standard leads p
      rw [wired_neutral path quiet] at result
      exact result

theorem called (standard : root.Standard) (wired : Wired root core) (code : core.code = call :: rest)
    (calls : Calls call { core with code := rest } after) : Wired root after := by
  cases wired with
  | neutral neutral =>
    cases code
    exact called_neutral standard neutral calls
  | exited => cases code
  | redir leads low =>
    cases code
    cases calls
    exact .redirClosed leads low
  | @redirClosed path cmd file mode fd p leads low =>
    cases code
    cases calls
    rw [open_eq (fdalloc_closed low (wired_open path))]
    have placed : update (update (Shell.wired path) fd none) fd
        (some (.file file mode)) = Shell.wired (.redir file mode fd :: path) := by
      rw [update_idem, wired_affects path low fun _ => rfl]
    show Wired root ⟨path, _, update _ fd _, p⟩
    rw [placed]
    exact .entering (leads.turn .redir)
  | @entering path turn cmd p leads =>
    cases code
    cases calls
    exact of_body standard leads p
  | pipe | pipeMade | pipeForked =>
    cases code
    cases calls
  | pipeForkedBoth =>
    cases code
    cases calls
    exact .pipeClosed
  | @pipeClosed path =>
    cases code
    cases calls
    show Wired root ⟨path, _, update (update (piped path) 3 none) 4 none, _⟩
    rw [piped_close]
    apply neutral
    simp only [List.mem_cons, List.not_mem_nil, or_false, forall_eq_or_imp, forall_eq]
    exact ⟨.wait, .wait, .exit 0⟩
  | left leads =>
    cases code
    cases calls
    exact .leftClosed leads
  | @leftClosed path cmd leads =>
    cases code
    cases calls
    have writing : update (piped path) 1 none 4 = some (.writeEnd path) := by
      rw [update_of_ne (by decide), piped, update_self]
    rw [show Core.operand _ Operand.p1 = 4 from rfl,
      dup_eq writing (fdalloc_closed (by decide) (piped_open path))]
    refine .placed leads ?_
    rw [update_idem]
    exact piped_place path (by decide) fun _ => rfl
  | right leads =>
    cases code
    cases calls
    exact .rightClosed leads
  | @rightClosed path cmd leads =>
    cases code
    cases calls
    have reading : update (piped path) 0 none 3 = some (.readEnd path) := by
      rw [update_of_ne (by decide), piped, update_of_ne (by decide), update_self]
    rw [show Core.operand _ Operand.p0 = 3 from rfl,
      dup_eq reading (fdalloc_closed (by decide) (piped_open path))]
    refine .placed leads ?_
    rw [update_idem]
    exact piped_place path (by decide) fun _ => rfl
  | placed leads closed =>
    cases code
    cases calls
    exact .placedClosed leads closed
  | @placedClosed path turn cmd table leads closed =>
    cases code
    cases calls
    show Wired root ⟨path, _, update table 4 none, _⟩
    rw [closed]
    exact .entering leads

theorem made (wired : Wired root core) (code : core.code = .pipe :: rest)
    (pipeEq : Core.pipe { core with code := rest } = some after) : Wired root after := by
  cases wired with
  | neutral neutral =>
    cases code
    cases neutral .pipe List.mem_cons_self
  | @pipe path left right p leads =>
    cases code
    rw [pipe_eq rfl] at pipeEq
    cases pipeEq
    exact .pipeMade leads
  | _ => cases code

theorem forked (wired : Wired root core) (code : core.code = .fork turn cmd :: rest) :
    Wired root { core with code := rest } ∧ Wired root { core with code := childBody turn cmd } := by
  cases wired with
  | @neutral path _ p neutral =>
    cases code
    have tail : ∀ other ∈ rest, Call.Neutral root path other :=
      fun other member => neutral other (List.mem_cons_of_mem _ member)
    refine ⟨.neutral tail, ?_⟩
    cases neutral (.fork turn cmd) List.mem_cons_self with
    | fork quiet leads =>
      have child : childBody turn cmd = [.runcmd turn cmd] := by
        rcases quiet with equal | equal | equal <;> rw [equal] <;> rfl
      show Wired root ⟨path, childBody turn cmd, _, p⟩
      rw [child]
      apply Wired.neutral
      simp only [List.mem_singleton, forall_eq]
      exact .runcmd quiet leads
  | pipeMade leads =>
    cases code
    exact ⟨.pipeForked leads, .left (leads.turn .pipeLeft)⟩
  | pipeForked leads =>
    cases code
    exact ⟨.pipeForkedBoth, .right (leads.turn .pipeRight)⟩
  | _ => cases code

end Wired

/-! ## The names of the pipes -/

/-- The constructs under which a process has still to run commands, or to make a child
that does. -/
def turns : List (Call α) → List (Turn α)
  | [] => []
  | .fork turn _ :: rest => turn :: turns rest
  | .runcmd turn _ :: rest => turn :: turns rest
  | _ :: rest => turns rest

/-- The commands in whose name a process or its children can still call `pipe`. -/
def Core.Pending (core : Core α) (node : Path α) : Prop :=
  (.pipe ∈ core.code ∧ node = core.path) ∨ ∃ turn ∈ turns core.code, turn :: core.path <:+ node

/-- Code in which no command is run twice. -/
structure Once (code : List (Call α)) : Prop where
  turns : (turns code).Nodup
  pipe : .pipe ∉ code.tail

theorem once_body (cmd : Cmd α) : Once (body cmd) := by
  cases cmd with
  | exec argv => cases argv <;> exact ⟨by simp [body, turns], by simp [body]⟩
  | redir | pipe | list | back => exact ⟨by simp [body, turns], by simp [body]⟩

theorem once_childBody (turn : Turn α) (cmd : Cmd α) : Once (childBody turn cmd) := by
  cases turn <;> exact ⟨by simp [childBody, turns], by simp [childBody]⟩

theorem turns_childBody (turn : Turn α) (cmd : Cmd α) : turns (childBody turn cmd) = [turn] := by
  cases turn <;> rfl

theorem turns_tail (call : Call α) (rest : List (Call α)) :
    (turns rest).Sublist (turns (call :: rest)) := by
  cases call <;> first | exact List.Sublist.refl _ | exact List.sublist_cons_self _ _

theorem Once.tail (once : Once (call :: rest)) : Once rest := by
  refine ⟨once.turns.sublist (turns_tail call rest), ?_⟩
  intro member
  exact once.pipe (List.mem_of_mem_tail member)

namespace Core.Pending

variable {core after : Core α} {call : Call α} {rest : List (Call α)} {node : Path α}

theorem of_tail (code : core.code = call :: rest)
    (pending : Core.Pending { core with code := rest } node) : core.Pending node := by
  rcases pending with ⟨member, equal⟩ | ⟨turn, member, under⟩
  · left
    rw [code]
    exact ⟨List.mem_cons_of_mem _ member, equal⟩
  · right
    rw [code]
    exact ⟨turn, (turns_tail call rest).subset member, under⟩

theorem not_nil {path : Path α} {table : Table α} : ¬ Core.Pending ⟨path, [], table, p⟩ node := by
  intro pending
  rcases pending with ⟨member, _⟩ | ⟨_, member, _⟩
  · cases member
  · cases member

/-- What is pending under a construct is pending for a process that has it ahead. -/
theorem of_turn (member : turn ∈ turns core.code) (path : after.path = turn :: core.path)
    (pending : after.Pending node) : core.Pending node := by
  right
  refine ⟨turn, member, ?_⟩
  rcases pending with ⟨_, equal⟩ | ⟨_, _, under⟩
  · rw [equal, path]
  · rw [path] at under
    exact (List.suffix_cons _ _).trans under

theorem of_calls (code : core.code = call :: rest)
    (calls : Calls call { core with code := rest } after) (pending : after.Pending node) :
    core.Pending node := by
  cases calls with
  | close | wait | failed => exact of_tail code pending
  | dup operand =>
    apply of_tail code
    simp only [Core.dup, Core.install] at pending
    split at pending
    · split at pending <;> exact pending
    · exact pending
  | open_ file mode =>
    simp only [Core.open_] at pending
    split at pending
    · exact of_tail code pending
    · rcases pending with ⟨member, _⟩ | ⟨_, member, _⟩
      · simp at member
      · cases member
  | exec | exit => cases not_nil pending
  | runcmd turn cmd =>
    have member : turn ∈ turns core.code := by
      rw [code]
      exact List.mem_cons_self
    exact of_turn member rfl pending

theorem of_pipe (code : core.code = .pipe :: rest) (once : Once core.code)
    (path : after.path = core.path) (codeAfter : after.code = rest)
    (pending : after.Pending node) : core.Pending node ∧ node ≠ core.path := by
  rcases pending with ⟨member, _⟩ | ⟨turn, member, under⟩
  · rw [codeAfter] at member
    rw [code] at once
    exact absurd member once.pipe
  · rw [codeAfter] at member
    rw [path] at under
    refine ⟨.inr ⟨turn, ?_, under⟩, ?_⟩
    · rw [code]
      exact (turns_tail _ rest).subset member
    · intro equal
      have longer := under.length_le
      rw [equal, List.length_cons] at longer
      omega

theorem of_child (code : core.code = .fork turn cmd :: rest)
    (pending : Core.Pending { core with code := childBody turn cmd } node) :
    turn :: core.path <:+ node ∧ core.Pending node := by
  have under : turn :: core.path <:+ node := by
    rcases pending with ⟨member, _⟩ | ⟨other, member, under⟩
    · cases turn <;> simp [childBody] at member
    · rw [turns_childBody, List.mem_singleton] at member
      rw [← member]
      exact under
  refine ⟨under, .inr ⟨turn, ?_, under⟩⟩
  rw [code]
  exact List.mem_cons_self

theorem not_child (once : Once core.code) (code : core.code = .fork turn cmd :: rest)
    (under : turn :: core.path <:+ node) (pending : Core.Pending { core with code := rest } node) :
    False := by
  rw [code] at once
  rcases pending with ⟨member, equal⟩ | ⟨other, member, underOther⟩
  · exact once.pipe member
  · have same : turn :: core.path = other :: core.path :=
      (List.suffix_of_suffix_length_le under underOther (by simp)).eq_of_length (by simp)
    cases same
    exact (List.nodup_cons.mp once.turns).1 member

end Core.Pending

theorem Once.of_calls {core after : Core α} (once : Once core.code)
    (code : core.code = call :: rest) (calls : Calls call { core with code := rest } after) :
    Once after.code := by
  rw [code] at once
  have nil : Once ([] : List (Call α)) := ⟨List.nodup_nil, by simp⟩
  cases calls with
  | close | wait | failed => exact once.tail
  | dup operand =>
    simp only [Core.dup, Core.install]
    split
    · split <;> exact once.tail
    · exact once.tail
  | open_ file mode =>
    simp only [Core.open_]
    split
    · exact once.tail
    · exact ⟨List.nodup_nil, by simp⟩
  | exec | exit => exact nil
  | runcmd turn cmd => exact once_body cmd

/-! ## The process that `runcmd` was called in -/

/-- The constructs that a process enters itself. -/
def Turn.Own : Turn α → Prop
  | .redir _ _ _ => True
  | .listRight => True
  | _ => False

/-- A process that no `fork` has made. -/
structure Core.Own (core : Core α) : Prop where
  path : ∀ turn ∈ core.path, turn.Own
  code : ∀ turn cmd, .runcmd turn cmd ∈ core.code → turn.Own

theorem own_body (cmd : Cmd α) : ∀ turn sub, .runcmd turn sub ∈ body cmd → turn.Own := by
  intro turn sub member
  cases cmd with
  | exec argv => cases argv <;> simp [body] at member
  | redir | list =>
    simp only [body, List.mem_cons, List.not_mem_nil, or_false, reduceCtorEq, false_or,
      Call.runcmd.injEq] at member
    rw [member.1]
    trivial
  | pipe | back => simp [body] at member

theorem Core.Own.tail {core : Core α} (own : core.Own) (code : core.code = call :: rest) :
    ∀ turn cmd, .runcmd turn cmd ∈ rest → turn.Own := by
  intro turn cmd member
  apply own.code turn cmd
  rw [code]
  exact List.mem_cons_of_mem _ member

theorem Core.Own.of_calls {core after : Core α} (own : core.Own) (code : core.code = call :: rest)
    (calls : Calls call { core with code := rest } after) : after.Own := by
  have tail := own.tail code
  cases calls with
  | close | wait | failed => exact ⟨own.path, tail⟩
  | dup operand =>
    simp only [Core.dup, Core.install]
    split
    · split <;> exact ⟨own.path, tail⟩
    · exact ⟨own.path, tail⟩
  | open_ file mode =>
    simp only [Core.open_]
    split
    · exact ⟨own.path, tail⟩
    · exact ⟨own.path, by simp⟩
  | exec | exit => exact ⟨own.path, fun _ _ member => by cases member⟩
  | runcmd turn cmd =>
    refine ⟨?_, own_body cmd⟩
    intro other member
    rcases List.mem_cons.mp member with equal | earlier
    · rw [equal]
      apply own.code turn cmd
      rw [code]
      exact List.mem_cons_self
    · exact own.path other earlier

/-! ## Runs -/

structure Ok (root : Cmd α) (state : State α) : Prop where
  wired : ∀ q, Wired root (state.cores q)
  once : ∀ q, Once (state.cores q).code
  unused : ∀ q, state.next ≤ q → (state.cores q).code = []
  separate : ∀ q r node, q ≠ r → (state.cores q).Pending node → ¬ (state.cores r).Pending node
  fresh : ∀ q node, (state.cores q).Pending node → node ∉ state.pipes
  nodup : state.pipes.Nodup
  own : (state.cores 0).Own
  used : 0 < state.next

section Runs

variable {root : Cmd α} {state next : State α} {pid : Nat}

theorem ok_boot (standard : root.Standard) : Ok root (boot root) where
  wired := by
    intro q
    simp only [State.cores, boot]
    split
    · exact Wired.of_body standard .root (0, 0)
    · exact .exited
  once := by
    intro q
    simp only [State.cores, boot]
    split
    · exact once_body root
    · exact ⟨List.nodup_nil, by simp⟩
  unused := by
    intro q outside
    simp only [boot] at outside
    simp only [State.cores, boot]
    rw [if_neg (by omega)]
  separate := by
    intro q r node different pending other
    simp only [State.cores, boot] at pending other
    split at pending
    · rename_i zero
      rw [if_neg (by omega)] at other
      cases Core.Pending.not_nil other
    · cases Core.Pending.not_nil pending
  fresh := by
    intro q node pending member
    cases member
  nodup := List.nodup_nil
  own := ⟨by simp [State.cores, boot], own_body root⟩
  used := Nat.one_pos

theorem Ok.update (ok : Ok root state) (made : List (Path α)) (inside : pid < state.next)
    (wired : Wired root core) (once : Once core.code)
    (pending : ∀ node, core.Pending node → (state.cores pid).Pending node ∧ node ∉ made)
    (own : (state.cores pid).Own → core.Own) (named : ∀ node ∈ made, (state.cores pid).Pending node)
    (madeNodup : made.Nodup) (cores : next.cores = update state.cores pid core)
    (count : next.next = state.next) (pipes : next.pipes = made ++ state.pipes) : Ok root next := by
  have before : ∀ q node, (next.cores q).Pending node →
      (state.cores q).Pending node ∧ node ∉ made := by
    intro q node holds
    rw [cores, update_apply] at holds
    split at holds
    · rename_i self
      rw [self]
      exact pending node holds
    · rename_i other
      refine ⟨holds, fun member => ?_⟩
      exact ok.separate q pid node other holds (named node member)
  constructor
  · intro q
    rw [cores, update_apply]
    split
    · exact wired
    · exact ok.wired q
  · intro q
    rw [cores, update_apply]
    split
    · exact once
    · exact ok.once q
  · intro q outside
    rw [count] at outside
    rw [cores, update_of_ne (by omega)]
    exact ok.unused q outside
  · intro q r node different holds other
    exact ok.separate q r node different (before q node holds).1 (before r node other).1
  · intro q node holds member
    rcases before q node holds with ⟨old, notMade⟩
    rw [pipes, List.mem_append] at member
    rcases member with new | earlier
    · exact notMade new
    · exact ok.fresh q node old earlier
  · rw [pipes]
    apply List.Nodup.append madeNodup ok.nodup
    intro node new earlier
    exact ok.fresh pid node (named node new) earlier
  · rw [cores, update_apply]
    split
    · rename_i self
      exact own (self ▸ ok.own)
    · exact ok.own
  · rw [count]
    exact ok.used

/-- What is pending after a `fork`: the child takes what is under one construct. -/
theorem Ok.pending_forked (ok : Ok root state)
    (code : (state.cores pid).code = .fork turn cmd :: rest)
    (here : next.cores pid = { state.cores pid with code := rest })
    (new : next.cores state.next = { state.cores pid with code := childBody turn cmd })
    (others : ∀ q, q ≠ pid → q ≠ state.next → next.cores q = state.cores q) (q : Nat)
    (node : Path α) (pending : (next.cores q).Pending node) :
    (q = state.next ∧ turn :: (state.cores pid).path <:+ node ∧ (state.cores pid).Pending node) ∨
    (q ≠ state.next ∧ (state.cores q).Pending node ∧
      (q = pid → ¬ turn :: (state.cores pid).path <:+ node)) := by
  by_cases isNew : q = state.next
  · rw [isNew, new] at pending
    exact .inl ⟨isNew, Core.Pending.of_child code pending⟩
  · right
    refine ⟨isNew, ?_⟩
    by_cases isPid : q = pid
    · rw [isPid, here] at pending
      rw [isPid]
      exact ⟨Core.Pending.of_tail code pending,
        fun _ under => Core.Pending.not_child (ok.once pid) code under pending⟩
    · rw [others q isPid isNew] at pending
      exact ⟨pending, fun equal => absurd equal isPid⟩

theorem Ok.forked (ok : Ok root state) (inside : pid < state.next)
    (code : (state.cores pid).code = .fork turn cmd :: rest)
    (parent : Wired root { state.cores pid with code := rest })
    (child : Wired root { state.cores pid with code := childBody turn cmd })
    (here : next.cores pid = { state.cores pid with code := rest })
    (new : next.cores state.next = { state.cores pid with code := childBody turn cmd })
    (others : ∀ q, q ≠ pid → q ≠ state.next → next.cores q = state.cores q)
    (count : next.next = state.next + 1) (pipes : next.pipes = state.pipes) : Ok root next := by
  have pending := ok.pending_forked code here new others
  constructor
  · intro q
    by_cases isNew : q = state.next
    · rw [isNew, new]
      exact child
    · by_cases isPid : q = pid
      · rw [isPid, here]
        exact parent
      · rw [others q isPid isNew]
        exact ok.wired q
  · intro q
    by_cases isNew : q = state.next
    · rw [isNew, new]
      exact once_childBody turn cmd
    · by_cases isPid : q = pid
      · rw [isPid, here]
        exact (code ▸ ok.once pid : Once (_ :: rest)).tail
      · rw [others q isPid isNew]
        exact ok.once q
  · intro q outside
    rw [count] at outside
    rw [others q (by omega) (by omega)]
    exact ok.unused q (by omega)
  · intro q r node different holds other
    rcases pending q node holds with ⟨isNew, under, old⟩ | ⟨notNew, old, notUnder⟩
    · rcases pending r node other with ⟨isNew', _, _⟩ | ⟨_, old', notUnder'⟩
      · exact different (isNew.trans isNew'.symm)
      · by_cases isPid : r = pid
        · exact notUnder' isPid under
        · exact ok.separate r pid node isPid old' old
    · rcases pending r node other with ⟨_, under', old'⟩ | ⟨_, old', _⟩
      · by_cases isPid : q = pid
        · exact notUnder isPid under'
        · exact ok.separate q pid node isPid old old'
      · exact ok.separate q r node different old old'
  · intro q node holds
    rw [pipes]
    rcases pending q node holds with ⟨_, _, old⟩ | ⟨_, old, _⟩
    · exact ok.fresh pid node old
    · exact ok.fresh q node old
  · rw [pipes]
    exact ok.nodup
  · by_cases isPid : 0 = pid
    · rw [isPid, here]
      have own : (state.cores pid).Own := isPid ▸ ok.own
      exact ⟨own.path, own.tail code⟩
    · rw [others 0 isPid (Nat.ne_of_lt ok.used)]
      exact ok.own
  · rw [count]
    exact Nat.succ_pos _

theorem Ok.moves (standard : root.Standard) (ok : Ok root state) (inside : pid < state.next)
    (moves : Moves state next pid) : Ok root next := by
  cases moves with
  | call code calls cores count pipes =>
    apply ok.update [] inside ((ok.wired pid).called standard code calls)
      ((ok.once pid).of_calls code calls) _ (fun own => own.of_calls code calls) (by simp)
      List.nodup_nil cores count pipes
    intro node holds
    exact ⟨Core.Pending.of_calls code calls holds, by simp⟩
  | ends cores count pipes =>
    apply ok.update [] inside .exited ⟨List.nodup_nil, by simp⟩ _
      (fun own => ⟨own.path, fun _ _ member => by cases member⟩) (by simp) List.nodup_nil cores
      count pipes
    intro node holds
    cases Core.Pending.not_nil holds
  | @pipe rest core code pipeEq cores count pipes =>
    have kept : core.path = (state.cores pid).path ∧ core.code = rest := by
      simp only [Core.pipe, Option.bind_eq_bind, Option.bind_eq_some_iff] at pipeEq
      rcases pipeEq with ⟨_, _, _, _, equal⟩
      cases equal
      exact ⟨rfl, rfl⟩
    apply ok.update [(state.cores pid).path] inside ((ok.wired pid).made code pipeEq) _
      _ _ _ (List.nodup_singleton _) cores count pipes
    · rw [kept.2]
      exact (code ▸ ok.once pid : Once (_ :: rest)).tail
    · intro node holds
      rcases Core.Pending.of_pipe code (ok.once pid) kept.1 kept.2 holds with ⟨old, other⟩
      exact ⟨old, fun member => other (List.mem_singleton.mp member)⟩
    · intro own
      refine ⟨kept.1 ▸ own.path, kept.2 ▸ own.tail code⟩
    · intro node member
      left
      rw [code]
      exact ⟨List.mem_cons_self, List.mem_singleton.mp member⟩
  | @fork turn cmd rest code cores count pipes =>
    rcases (ok.wired pid).forked code with ⟨parent, child⟩
    have apart : pid ≠ state.next := Nat.ne_of_lt inside
    have here : next.cores pid = { state.cores pid with code := rest } := by
      rw [cores, update_of_ne apart, update_self]
    have new : next.cores state.next = { state.cores pid with code := childBody turn cmd } := by
      rw [cores, update_self]
    have others : ∀ q, q ≠ pid → q ≠ state.next → next.cores q = state.cores q := by
      intro q notPid notNew
      rw [cores, update_of_ne notNew, update_of_ne notPid]
    exact ok.forked inside code parent child here new others count pipes

theorem ok_of_run (standard : root.Standard) (run : Steps step (boot root) labels state) :
    Ok root state := by
  apply @Steps.invariant _ _ _ (Ok root) _ _ _ _ run
  · exact ok_boot standard
  · intro state label next ok stepEq
    rcases step_moves stepEq with ⟨inside, moves⟩
    exact ok.moves standard inside moves

end Runs

theorem Wired.exec {root : Cmd α} {core : Core α} {argv : List α} {rest : List (Call α)}
    (wired : Wired root core) (code : core.code = .exec argv :: rest) :
    Leads root core.path (.exec argv) ∧ core.table = Shell.wired core.path := by
  cases wired with
  | neutral neutral =>
    cases code
    cases neutral (.exec argv) List.mem_cons_self with
    | exec leads => exact ⟨leads, rfl⟩
  | _ => cases code

/-- The calls of a process that makes no more children and opens nothing more. -/
def Call.Settled : Call α → Prop
  | .wait => True
  | .exec _ => True
  | .exit _ => True
  | _ => False

theorem Wired.settled (wired : Wired root core) (settled : ∀ call ∈ core.code, call.Settled)
    (open_ : core.table fd = some file) : fd < 3 ∧ file = source core.path fd := by
  cases wired with
  | @neutral path =>
    change Shell.wired path fd = some file at open_
    by_cases low : fd < 3
    · rw [wired_of_lt path low] at open_
      cases open_
      exact ⟨low, rfl⟩
    · rw [wired_of_ge path (by omega)] at open_
      cases open_
  | exited => cases open_
  | _ => cases settled _ List.mem_cons_self

theorem source_own {path : Path α} (own : ∀ turn ∈ path, turn.Own) (fd : Nat) (node : Path α) :
    source path fd ≠ .readEnd node ∧ source path fd ≠ .writeEnd node := by
  induction path with
  | nil => simp [source]
  | cons turn path induction =>
    have later := induction fun other member => own other (List.mem_cons_of_mem _ member)
    have first := own turn List.mem_cons_self
    rw [source]
    cases turn with
    | redir file mode other =>
      rw [Turn.affects]
      by_cases equal : fd = other
      · simp [equal]
      · rw [if_neg equal]
        exact later
    | listRight => exact later
    | pipeLeft | pipeRight | listLeft | back => cases first

/-- In every state of every run of a command tree: a process that is about to call `exec`
has exactly the descriptors 0, 1 and 2 open, and each refers to what the nearest
construct on the path to its leaf makes it refer to; no command calls `pipe` twice, so
that a pipe is known by its command; and the process that `runcmd` was called in has no
end of a pipe open once it only waits, calls `exec` or exits. -/
theorem runcmd_descriptor_wiring {root : Cmd α} (standard : root.Standard)
    {labels : List (Nat × Choice)} {state : State α}
    (run : Steps step (boot root) labels state) :
    (∀ pid argv rest, (state.cores pid).code = .exec argv :: rest →
      Leads root (state.cores pid).path (.exec argv) ∧
      ∀ fd, (state.cores pid).table fd =
        if fd < 3 then some (source (state.cores pid).path fd) else none) ∧
    state.pipes.Nodup ∧
    ((∀ call ∈ (state.cores 0).code, call.Settled) → ∀ fd node,
      (state.cores 0).table fd ≠ some (.readEnd node) ∧
      (state.cores 0).table fd ≠ some (.writeEnd node)) := by
  have ok := ok_of_run standard run
  refine ⟨?_, ok.nodup, ?_⟩
  · intro pid argv rest code
    rcases (ok.wired pid).exec code with ⟨leads, table⟩
    refine ⟨leads, fun fd => ?_⟩
    rw [table]
    rfl
  · intro settled fd node
    have clean := source_own ok.own.path fd node
    constructor
    · intro open_
      exact clean.1 ((ok.wired 0).settled settled open_).2.symm
    · intro open_
      exact clean.2 ((ok.wired 0).settled settled open_).2.symm

/-- `0 | 1 > 7`, where the words are numbers. -/
def redirectedPipe : Cmd Nat := .pipe (.exec [0]) (.redir (.exec [1]) 7 0x601 1)

/-- The two children run up to their calls of `exec`, and the parent closes its ends. -/
def redirectedPipeRun : List (Nat × Choice) :=
  List.replicate 5 (0, .go) ++ List.replicate 5 (1, .go) ++ List.replicate 8 (2, .go)

theorem runcmd_descriptor_wiring_redirectedPipe : redirectedPipe.Standard ∧
    ∃ state, Steps step (boot redirectedPipe) redirectedPipeRun state ∧
      (state.cores 1).table 1 = some (.writeEnd []) ∧ (state.cores 2).table 0 = some (.readEnd []) ∧
      (state.cores 2).table 1 = some (.file 7 0x601) ∧ state.pipes.Nodup := by
  have standard : redirectedPipe.Standard := ⟨trivial, by decide, trivial⟩
  refine ⟨standard, ?_⟩
  have ran := Outcome.eq_next_of_isNext (boot redirectedPipe)
    (show (runSteps step (boot redirectedPipe) redirectedPipeRun).isNext = true by decide +kernel)
  have run := steps_iff_runSteps.mpr ran
  rcases runcmd_descriptor_wiring standard run with ⟨wired, nodup, _⟩
  refine ⟨_, run, ?_, ?_, ?_, nodup⟩
  · rw [(wired 1 [0] [.exit 0] rfl).2 1]
    rfl
  · rw [(wired 2 [1] [.exit 0] rfl).2 0]
    rfl
  · rw [(wired 2 [1] [.exit 0] rfl).2 1]
    rfl

end Xv6.Shell
