import Xv6.Log.Protocol

/-! # Group commit isolates operations -/

namespace Xv6.Protocol

/-! ## Phases after a step -/

variable {phase : Phase}

namespace State

@[simp] theorem setPhase_phase (state : State) (process : Nat) (phase : Phase) (other : Nat) :
    (state.setPhase process phase).phase other =
      if other = process then phase else state.phase other := by
  simp [setPhase, Function.update_apply]

theorem phase_of_setPhase {state : State}
    (found : (state.setPhase process phase).phase other = value) (different : phase ≠ value) :
    state.phase other = value := by
  rw [setPhase_phase] at found
  split at found
  · exact absurd found different
  · exact found

@[simp] theorem wakeup_phase_eq_running_iff (state : State) (process op : Nat) :
    state.wakeup.phase process = .running op ↔ state.phase process = .running op := by
  simp only [wakeup]
  split <;> simp_all

@[simp] theorem wakeup_phase_eq_commit_iff (state : State) (process : Nat) (pc : CommitPc) :
    state.wakeup.phase process = .commit pc ↔ state.phase process = .commit pc := by
  simp only [wakeup]
  split <;> simp_all

@[simp] theorem wakeup_phase_ne_asleep (state : State) (process : Nat) :
    state.wakeup.phase process ≠ .asleep := by
  simp only [wakeup]
  split <;> simp_all

end State

/-- A commit that is past `write_head`, or had nothing to write. -/
def CommitPc.written : CommitPc → Bool
  | .test | .writeLog _ | .writeHead => false
  | .installTrans _ | .clear | .eraseHead | .leave => true

/-- A commit that has set `lh.n` to zero, or found it so. -/
def CommitPc.erased : CommitPc → Bool
  | .eraseHead | .leave => true
  | _ => false

/-! ## The control invariant -/

/-- The processes inside an operation are counted by `outstanding`; the commit
flag is up exactly while one process is in `commit()`, and then nobody is inside
an operation. -/
structure Control (state : State) : Prop where
  counted : ∃ active : Finset Nat,
    (∀ process, process ∈ active ↔ ∃ op, state.phase process = .running op) ∧
      state.log.outstanding = active.card
  committer : ∀ process pc, state.phase process = .commit pc → state.log.committing = true
  quiet : state.log.committing = true → state.log.outstanding = 0
  erased : ∀ process pc, state.phase process = .commit pc → pc.erased = true → state.log.lh = []
  committerUnique : ∀ first second pc other, state.phase first = .commit pc →
    state.phase second = .commit other → first = second
  empty : state.log.committing = false → state.log.outstanding = 0 → state.log.lh = []
  sleepers : ∀ process, state.phase process = .asleep →
    state.log.committing = true ∨
      ((state.log.lh.length : Int) + (state.log.outstanding + 1) * maxOpBlocks > logSize ∧
        state.log.outstanding ≥ 1)

namespace Control

variable {state : State}

section

variable (control : Control state)

include control

theorem outstanding_nonneg : 0 ≤ state.log.outstanding := by
  rcases control.counted with ⟨active, _, card⟩
  omega

theorem outstanding_pos (inside : state.phase process = .running op) :
    1 ≤ state.log.outstanding := by
  rcases control.counted with ⟨active, member, card⟩
  have positive : 0 < active.card :=
    Finset.card_pos.mpr ⟨process, (member process).mpr ⟨op, inside⟩⟩
  omega

theorem notCommitting (inside : state.phase process = .running op) :
    state.log.committing = false := by
  have positive := control.outstanding_pos inside
  cases committing : state.log.committing with
  | false => rfl
  | true =>
    have := control.quiet committing
    omega

/-- A refused process waits for a commit or for space that others have
reserved: with no operation outstanding the log is empty and has room. -/
theorem refused
    (full : state.log.committing = true ∨
      (state.log.lh.length : Int) + (state.log.outstanding + 1) * maxOpBlocks > logSize) :
    state.log.committing = true ∨
      ((state.log.lh.length : Int) + (state.log.outstanding + 1) * maxOpBlocks > logSize ∧
        state.log.outstanding ≥ 1) := by
  rcases full with committing | full
  · exact .inl committing
  · by_cases committing : state.log.committing = true
    · exact .inl committing
    · refine .inr ⟨full, ?_⟩
      by_contra none
      have zero : state.log.outstanding = 0 := by
        have := control.outstanding_nonneg
        omega
      rw [control.empty (by simpa using committing) zero, zero] at full
      simp [maxOpBlocks, logSize] at full

theorem counted_erase (inside : state.phase process = .running op) :
    ∃ active : Finset Nat,
      (∀ other, other ∈ active ↔ other ≠ process ∧ ∃ op, state.phase other = .running op) ∧
        state.log.outstanding - 1 = active.card := by
  rcases control.counted with ⟨active, member, card⟩
  have here : process ∈ active := (member process).mpr ⟨op, inside⟩
  refine ⟨active.erase process, fun other => by rw [Finset.mem_erase, member], ?_⟩
  rw [Finset.card_erase_of_mem here, card]
  have : 0 < active.card := Finset.card_pos.mpr ⟨process, here⟩
  omega

end

end Control

theorem control_boot (logstart nlog : Nat) : Control (boot logstart nlog) where
  counted := ⟨∅, by simp [boot], rfl⟩
  committer := by simp [boot]
  quiet := by simp [boot, Log.initlog]
  erased := by simp [boot]
  committerUnique := by simp [boot]
  empty := fun _ _ => rfl
  sleepers := by simp [boot]

/-- Moving one process between phases other than `running` and `commit`
changes nothing that the log counts. -/
theorem Control.setPhase_outside (control : Control state)
    (before : ∀ op, state.phase process ≠ .running op) (notRunning : ∀ op, phase ≠ .running op)
    (notCommit : ∀ pc, phase ≠ .commit pc)
    (asleep : phase = .asleep → state.log.committing = true ∨
      ((state.log.lh.length : Int) + (state.log.outstanding + 1) * maxOpBlocks > logSize ∧
        state.log.outstanding ≥ 1)) : Control (state.setPhase process phase) where
  counted := by
    rcases control.counted with ⟨active, member, card⟩
    refine ⟨active, fun other => ?_, card⟩
    rw [member]
    by_cases same : other = process
    · subst other
      simp [before, notRunning]
    · simp [same]
  committer other pc inside :=
    control.committer other pc (State.phase_of_setPhase inside (notCommit pc))
  quiet := control.quiet
  erased other pc inside :=
    control.erased other pc (State.phase_of_setPhase inside (notCommit pc))
  committerUnique first second pc other firstIn secondIn :=
    control.committerUnique first second pc other
      (State.phase_of_setPhase firstIn (notCommit pc))
      (State.phase_of_setPhase secondIn (notCommit other))
  empty := control.empty
  sleepers := by
    intro other inside
    by_cases same : other = process
    · exact asleep (by simpa [same] using inside)
    · exact control.sleepers other (by simpa [same] using inside)

theorem Control.enter (control : Control state)
    (waiting : state.phase process = .idle ∨ state.phase process = .woken)
    (notCommitting : state.log.committing = false) :
    Control ({ state with
      log := { state.log with outstanding := state.log.outstanding + 1 }
      nextOp := state.nextOp + 1 }.setPhase process (.running state.nextOp)) where
  counted := by
    rcases control.counted with ⟨active, member, card⟩
    have absent : process ∉ active := by
      rw [member]
      rcases waiting with idle | woken <;> simp [*]
    refine ⟨insert process active, fun other => ?_, ?_⟩
    · by_cases same : other = process
      · simp [same]
      · simp [same, member]
    · simp [Finset.card_insert_of_notMem absent, card]
  committer other pc inside :=
    control.committer other pc (State.phase_of_setPhase inside (by simp))
  quiet := by simp [notCommitting]
  erased other pc inside := control.erased other pc (State.phase_of_setPhase inside (by simp))
  committerUnique first second pc other firstIn secondIn :=
    control.committerUnique first second pc other (State.phase_of_setPhase firstIn (by simp))
      (State.phase_of_setPhase secondIn (by simp))
  empty := by
    intro _ zero
    have := control.outstanding_nonneg
    simp only [State.setPhase_log] at zero
    omega
  sleepers := by
    intro other inside
    have := control.outstanding_nonneg
    rcases control.sleepers other (State.phase_of_setPhase inside (by simp)) with
      committing | ⟨full, _⟩
    · simp [notCommitting] at committing
    · refine .inr ⟨?_, ?_⟩ <;> simp only [State.setPhase_log] <;>
        simp only [maxOpBlocks] at full ⊢ <;> omega

theorem Control.record (control : Control state) (inside : state.phase process = .running op)
    (lh : List Nat) (events : List LogEvent) (grows : state.log.lh.length ≤ lh.length) :
    Control { state with log := { state.log with lh := lh }, events := events } where
  counted := control.counted
  committer := control.committer
  quiet := control.quiet
  erased := by
    intro other pc committing
    have := control.committer other pc committing
    simp [control.notCommitting inside] at this
  committerUnique := control.committerUnique
  empty := by
    intro _ zero
    have := control.outstanding_pos inside
    simp only at zero
    omega
  sleepers := by
    intro other asleep
    rcases control.sleepers other asleep with committing | ⟨full, positive⟩
    · exact .inl committing
    · refine .inr ⟨?_, positive⟩
      simp only
      omega

theorem Control.endLast (control : Control state) (inside : state.phase process = .running op)
    (last : state.log.outstanding = 1) :
    Control ({ state with
      log := { state.log with outstanding := 0, committing := true } }.setPhase
        process (.commit .test)) where
  counted := by
    rcases control.counted_erase inside with ⟨active, member, card⟩
    refine ⟨active, fun other => ?_, by simp only [State.setPhase_log]; omega⟩
    rw [member]
    by_cases same : other = process <;> simp [same]
  committer := fun _ _ _ => rfl
  quiet := fun _ => rfl
  erased := by
    intro other pc committing isErased
    by_cases same : other = process
    · have : pc = .test := by simpa [same, eq_comm] using committing
      subst pc
      cases isErased
    · have := control.committer other pc (by simpa [same] using committing)
      simp [control.notCommitting inside] at this
  committerUnique := by
    have only : ∀ other pc, other ≠ process → state.phase other ≠ .commit pc := by
      intro other pc _ committing
      have := control.committer other pc committing
      simp [control.notCommitting inside] at this
    intro first second pc other firstIn secondIn
    by_cases firstSame : first = process
    · by_cases secondSame : second = process
      · rw [firstSame, secondSame]
      · exact absurd (by simpa [secondSame] using secondIn) (only second other secondSame)
    · exact absurd (by simpa [firstSame] using firstIn) (only first pc firstSame)
  empty := by simp
  sleepers := fun _ _ => .inl rfl

theorem Control.endOther (control : Control state) (inside : state.phase process = .running op)
    (notLast : state.log.outstanding ≠ 1) :
    Control ({ state with
      log := { state.log with
        outstanding := state.log.outstanding - 1 } }.wakeup.setPhase process .idle) where
  counted := by
    rcases control.counted_erase inside with ⟨active, member, card⟩
    refine ⟨active, fun other => ?_, by simpa using card⟩
    rw [member]
    by_cases same : other = process <;> simp [same]
  committer other pc committing := control.committer other pc
    ((State.wakeup_phase_eq_commit_iff ..).mp (State.phase_of_setPhase committing (by simp)))
  quiet := by simp [control.notCommitting inside]
  erased other pc committing := control.erased other pc
    ((State.wakeup_phase_eq_commit_iff ..).mp (State.phase_of_setPhase committing (by simp)))
  committerUnique first second pc other firstIn secondIn :=
    control.committerUnique first second pc other
      ((State.wakeup_phase_eq_commit_iff ..).mp (State.phase_of_setPhase firstIn (by simp)))
      ((State.wakeup_phase_eq_commit_iff ..).mp (State.phase_of_setPhase secondIn (by simp)))
  empty := by
    intro _ zero
    have := control.outstanding_pos inside
    simp only [State.setPhase_log, State.wakeup_log] at zero
    omega
  sleepers := by
    intro other asleep
    by_cases same : other = process <;> simp [same] at asleep

variable {after before : CommitPc}

theorem Control.advance (control : Control state) (inside : state.phase process = .commit before)
    (lh : List Nat) (headers : List (List Nat)) (erased : after.erased = true → lh = []) :
    Control ({ state with log := { state.log with lh := lh }, headers := headers }.setPhase
      process (.commit after)) where
  counted := by
    rcases control.counted with ⟨active, member, card⟩
    refine ⟨active, fun other => ?_, by simpa using card⟩
    rw [member]
    by_cases same : other = process
    · subst other
      simp [inside]
    · simp [same]
  committer := fun _ _ _ => control.committer process before inside
  quiet := control.quiet
  erased := by
    intro other pc committing isErased
    by_cases same : other = process
    · have : after = pc := by simpa [same] using committing
      exact erased (this ▸ isErased)
    · exact absurd (control.committerUnique other process pc before
        (by simpa [same] using committing) inside) same
  committerUnique := by
    have only : ∀ other pc, state.phase other = .commit pc → other = process :=
      fun other pc committing => control.committerUnique other process pc before committing inside
    intro first second pc other firstIn secondIn
    have firstSame : first = process := by
      by_contra different
      exact different (only first pc (by simpa [different] using firstIn))
    have secondSame : second = process := by
      by_contra different
      exact different (only second other (by simpa [different] using secondIn))
    rw [firstSame, secondSame]
  empty := by
    intro notCommitting
    have := control.committer process before inside
    simp only [State.setPhase_log] at notCommitting
    simp [notCommitting] at this
  sleepers := fun _ _ => .inl (control.committer process before inside)

theorem Control.noCommit_after_leave (control : Control state)
    (inside : state.phase process = .commit .leave) (other : Nat) (pc : CommitPc) :
    (state.wakeup.setPhase process .idle).phase other ≠ .commit pc := by
  intro committing
  by_cases same : other = process
  · simp [same] at committing
  · exact same (control.committerUnique other process pc .leave
      (by simpa [same] using committing) inside)

theorem Control.leave (control : Control state) (inside : state.phase process = .commit .leave) :
    Control ({ state with log := state.log.endCommit }.wakeup.setPhase process .idle) where
  counted := by
    rcases control.counted with ⟨active, member, card⟩
    refine ⟨active, fun other => ?_, by simpa [Log.endCommit] using card⟩
    rw [member]
    by_cases same : other = process
    · subst other
      simp [inside]
    · simp [same]
  committer other pc committing := absurd committing (control.noCommit_after_leave inside other pc)
  quiet := by simp [Log.endCommit]
  erased other pc committing := absurd committing (control.noCommit_after_leave inside other pc)
  committerUnique first _ pc _ firstIn _ :=
    absurd firstIn (control.noCommit_after_leave inside first pc)
  empty := fun _ _ => control.erased process .leave inside rfl
  sleepers := by
    intro other asleep
    by_cases same : other = process <;> simp [same] at asleep

theorem Control.commitStep (control : Control state) (inside : state.phase process = .commit pc) :
    Control (commitStep state process pc) := by
  cases pc with
  | test =>
    refine control.advance inside state.log.lh state.headers ?_
    split
    · intro impossible
      cases impossible
    · rename_i none
      exact fun _ => List.length_eq_zero_iff.mp (by omega)
  | writeLog | installTrans =>
    refine control.advance inside state.log.lh state.headers ?_
    split <;> exact fun impossible => nomatch impossible
  | writeHead =>
    exact control.advance inside state.log.lh _ (fun impossible => nomatch impossible)
  | clear => exact control.advance inside [] state.headers (fun _ => rfl)
  | eraseHead =>
    exact control.advance inside state.log.lh state.headers
      (fun _ => control.erased process .eraseHead inside rfl)
  | leave => exact control.leave inside

theorem control_step (state : State) (label : Label) (next : State) (control : Control state)
    (stepEq : step state label = .next next) : Control next := by
  rcases label with ⟨process, action⟩
  cases step_moves stepEq with
  | refuse waiting full =>
    refine control.setPhase_outside ?_ (by simp) (by simp) (fun _ => control.refused full)
    rcases waiting with idle | woken <;> simp [*]
  | enter waiting notCommitting => exact control.enter waiting notCommitting
  | absorb inside logged => exact control.record inside state.log.lh _ (le_refl _)
  | append inside fresh => exact control.record inside _ _ (by simp)
  | endLast inside notCommitting last => exact control.endLast inside last
  | endOther inside notCommitting notLast => exact control.endOther inside notLast
  | commit inside => exact control.commitStep inside
  | kill asleep =>
    exact control.setPhase_outside (by simp [asleep]) (by simp) (by simp) (by simp)

/-! ## The history invariant -/

/-- Every `log_write` is recorded in the header of the transaction that was open
when it was made: in the in-memory header until `write_head`, and from then on
in the header that was written. -/
structure History (state : State) : Prop where
  numbered : ∀ event ∈ state.events, event.op < state.nextOp
  running : ∀ process op, state.phase process = .running op → op < state.nextOp
  bounded : ∀ event ∈ state.events, event.txn ≤ state.headers.length
  unfinished : ∀ process op, state.phase process = .running op →
    ∀ event ∈ state.events, event.op = op → event.txn = state.headers.length
  together : ∀ first ∈ state.events, ∀ second ∈ state.events,
    first.op = second.op → first.txn = second.txn
  durable : ∀ event ∈ state.events, ∀ header,
    state.headers[event.txn]? = some header → event.block ∈ header
  current : ∀ event ∈ state.events, event.txn = state.headers.length → event.block ∈ state.log.lh
  written : ∀ process pc, state.phase process = .commit pc → pc.written = true →
    ∀ event ∈ state.events, event.txn ≠ state.headers.length
  source : state.log.committing = false → ∀ block ∈ state.log.lh,
    ∃ event ∈ state.events, event.txn = state.headers.length ∧ event.block = block
  nodup : state.log.lh.Nodup

theorem history_boot (logstart nlog : Nat) : History (boot logstart nlog) where
  numbered := by simp [boot]
  running := by simp [boot]
  bounded := by simp [boot]
  unfinished := by simp [boot]
  together := by simp [boot]
  durable := by simp [boot]
  current := by simp [boot]
  written := by simp [boot]
  source := by simp [boot, Log.initlog]
  nodup := List.nodup_nil

variable {state : State}

/-- A step that only moves processes between phases keeps the history, as long
as it starts no operation and lets no commit pass `write_head`. -/
theorem History.of_phases {next : State} (history : History state) (lh : next.log.lh = state.log.lh)
    (committing : next.log.committing = false → state.log.committing = false ∨ state.log.lh = [])
    (nextOp : next.nextOp = state.nextOp) (events : next.events = state.events)
    (headers : next.headers = state.headers)
    (running : ∀ process op, next.phase process = .running op → state.phase process = .running op)
    (written : ∀ process pc, next.phase process = .commit pc → pc.written = true →
      (∃ other before, state.phase other = .commit before ∧ before.written = true) ∨
        state.log.lh = []) : History next where
  numbered := by rw [events, nextOp]; exact history.numbered
  running := by
    intro process op inside
    rw [nextOp]
    exact history.running process op (running process op inside)
  bounded := by rw [events, headers]; exact history.bounded
  unfinished := by
    intro process op inside
    rw [events, headers]
    exact history.unfinished process op (running process op inside)
  together := by rw [events]; exact history.together
  durable := by rw [events, headers]; exact history.durable
  current := by rw [events, headers, lh]; exact history.current
  written := by
    intro process pc inside isWritten
    rw [events, headers]
    rcases written process pc inside isWritten with ⟨other, before, committing, isWritten⟩ | empty
    · exact history.written other before committing isWritten
    · intro event member last
      have := history.current event member last
      simp [empty] at this
  source := by
    intro notCommitting
    rw [events, headers, lh]
    rcases committing notCommitting with before | empty
    · exact history.source before
    · simp [empty]
  nodup := by rw [lh]; exact history.nodup

variable {process : Nat}

section

variable (history : History state)

include history

theorem History.enter (log : Log) (lh : log.lh = state.log.lh)
    (committing : log.committing = state.log.committing) :
    History ({ state with log := log, nextOp := state.nextOp + 1 }.setPhase process
      (.running state.nextOp)) where
  numbered := fun event member => Nat.lt_succ_of_lt (history.numbered event member)
  running := by
    intro other op inside
    by_cases same : other = process
    · have : state.nextOp = op := by simpa [same] using inside
      simp [this]
    · exact Nat.lt_succ_of_lt (history.running other op (by simpa [same] using inside))
  bounded := history.bounded
  unfinished := by
    intro other op inside event member sameOp
    by_cases same : other = process
    · have : state.nextOp = op := by simpa [same] using inside
      have := history.numbered event member
      omega
    · exact history.unfinished other op (by simpa [same] using inside) event member sameOp
  together := history.together
  durable := history.durable
  current := by
    simp only [State.setPhase_log, lh]
    exact history.current
  written other pc inside := history.written other pc (State.phase_of_setPhase inside (by simp))
  source := by
    simp only [State.setPhase_log, lh, committing]
    exact history.source
  nodup := by
    simp only [State.setPhase_log, lh]
    exact history.nodup

theorem History.record (control : Control state) (inside : state.phase process = .running op)
    (lh : List Nat) (contains : blockno ∈ lh) (kept : ∀ block ∈ state.log.lh, block ∈ lh)
    (onlyNew : ∀ block ∈ lh, block ∈ state.log.lh ∨ block = blockno) (nodup : lh.Nodup) :
    History { state with
      log := { state.log with lh := lh }
      events := ⟨op, blockno, state.headers.length⟩ :: state.events } where
  numbered := by
    intro event member
    rcases List.mem_cons.mp member with rfl | member
    · exact history.running process op inside
    · exact history.numbered event member
  running := history.running
  bounded := by
    intro event member
    rcases List.mem_cons.mp member with rfl | member
    · exact le_refl _
    · exact history.bounded event member
  unfinished := by
    intro other otherOp otherInside event member sameOp
    rcases List.mem_cons.mp member with rfl | member
    · rfl
    · exact history.unfinished other otherOp otherInside event member sameOp
  together := by
    intro first firstMember second secondMember sameOp
    rcases List.mem_cons.mp firstMember with rfl | firstMember
    · rcases List.mem_cons.mp secondMember with rfl | secondMember
      · rfl
      · exact (history.unfinished process op inside second secondMember sameOp.symm).symm
    · rcases List.mem_cons.mp secondMember with rfl | secondMember
      · exact history.unfinished process op inside first firstMember sameOp
      · exact history.together first firstMember second secondMember sameOp
  durable := by
    intro event member header found
    rcases List.mem_cons.mp member with rfl | member
    · simp at found
    · exact history.durable event member header found
  current := by
    intro event member last
    rcases List.mem_cons.mp member with rfl | member
    · exact contains
    · exact kept _ (history.current event member last)
  written := by
    intro other pc committing
    have := control.committer other pc committing
    simp [control.notCommitting inside] at this
  source := by
    intro notCommitting block member
    rcases onlyNew block member with old | rfl
    · rcases history.source notCommitting block old with ⟨event, eventMember, last, same⟩
      exact ⟨event, List.mem_cons_of_mem _ eventMember, last, same⟩
    · exact ⟨_, List.mem_cons_self, rfl, rfl⟩
  nodup := nodup

theorem History.writeHead (control : Control state)
    (inside : state.phase process = .commit .writeHead) :
    History ({ state with headers := state.headers ++ [state.log.lh] }.setPhase process
      (.commit (.installTrans 0))) where
  numbered := history.numbered
  running other op running := history.running other op (State.phase_of_setPhase running (by simp))
  bounded := by
    intro event member
    have := history.bounded event member
    simp only [State.setPhase_headers, List.length_append, List.length_singleton]
    omega
  unfinished := by
    intro other op running
    have notCommitting := control.notCommitting (State.phase_of_setPhase running (by simp))
    simp [control.committer process .writeHead inside] at notCommitting
  together := history.together
  durable := by
    intro event member header found
    simp only [State.setPhase_headers] at found
    have bounded := history.bounded event member
    rcases Nat.lt_or_eq_of_le bounded with earlier | last
    · rw [List.getElem?_append_left earlier] at found
      exact history.durable event member header found
    · rw [last, List.getElem?_append_right (le_refl _)] at found
      simp only [Nat.sub_self, List.getElem?_cons_zero, Option.some.injEq] at found
      exact found ▸ history.current event member last
  current := by
    intro event member last
    have := history.bounded event member
    simp only [State.setPhase_headers, List.length_append, List.length_singleton] at last
    omega
  written := by
    intro other pc committing isWritten event member last
    have := history.bounded event member
    simp only [State.setPhase_headers, List.length_append, List.length_singleton] at last
    omega
  source := by
    intro notCommitting
    simp [control.committer process .writeHead inside] at notCommitting
  nodup := history.nodup

theorem History.clear (inside : state.phase process = .commit .clear) :
    History ({ state with log := state.log.clearHead }.setPhase process (.commit .eraseHead)) where
  numbered := history.numbered
  running other op running := history.running other op (State.phase_of_setPhase running (by simp))
  bounded := history.bounded
  unfinished other op running :=
    history.unfinished other op (State.phase_of_setPhase running (by simp))
  together := history.together
  durable := history.durable
  current := by
    intro event member last
    exact absurd last (history.written process .clear inside rfl event member)
  written := by
    intro other pc committing isWritten
    exact history.written process .clear inside rfl
  source := by simp [Log.clearHead]
  nodup := List.nodup_nil

/-- A step of `commit()` that leaves the log alone and keeps the committer on
the same side of `write_head`. -/
theorem History.advance (inside : state.phase process = .commit before)
    (written : after.written = true → before.written = true ∨ state.log.lh = []) :
    History (state.setPhase process (.commit after)) := by
  refine history.of_phases rfl .inl rfl rfl rfl
    (fun other op running => State.phase_of_setPhase running (by simp)) ?_
  intro other pc committing isWritten
  by_cases same : after = pc
  · rcases written (same ▸ isWritten) with isWritten | empty
    · exact .inl ⟨process, before, inside, isWritten⟩
    · exact .inr empty
  · exact .inl ⟨other, pc, State.phase_of_setPhase committing (by simp [same]), isWritten⟩

theorem History.commitStep (control : Control state) (inside : state.phase process = .commit pc) :
    History (commitStep state process pc) := by
  cases pc with
  | test =>
    refine history.advance inside ?_
    split
    · intro impossible
      cases impossible
    · rename_i none
      exact fun _ => .inr (List.length_eq_zero_iff.mp (by omega))
  | writeLog tail =>
    refine history.advance inside ?_
    split <;> exact fun impossible => nomatch impossible
  | writeHead => exact history.writeHead control inside
  | installTrans | eraseHead => exact history.advance inside (fun _ => .inl rfl)
  | clear => exact history.clear inside
  | leave =>
    refine history.of_phases rfl
      (fun _ => .inr (control.erased process .leave inside rfl)) rfl rfl rfl ?_
      fun _ _ _ _ => .inr (control.erased process .leave inside rfl)
    intro other op running
    exact (State.wakeup_phase_eq_running_iff ..).mp (State.phase_of_setPhase running (by simp))

end

theorem history_step (state : State) (label : Label) (next : State) (control : Control state)
    (history : History state) (stepEq : step state label = .next next) : History next := by
  rcases label with ⟨process, action⟩
  -- a process that goes to sleep, wakes or becomes idle starts no operation
  have outside : ∀ phase : Phase, (∀ op, phase ≠ .running op) → (∀ pc, phase ≠ .commit pc) →
      History (state.setPhase process phase) := by
    intro phase notRunning notCommit
    exact history.of_phases rfl .inl rfl rfl rfl
      (fun other op running => State.phase_of_setPhase running (notRunning op))
      fun other pc committing isWritten =>
        .inl ⟨other, pc, State.phase_of_setPhase committing (notCommit pc), isWritten⟩
  cases step_moves stepEq with
  | refuse waiting full => exact outside .asleep (by simp) (by simp)
  | enter waiting notCommitting => exact history.enter _ rfl rfl
  | absorb inside logged =>
    exact history.record control inside state.log.lh logged (fun _ member => member)
      (fun _ member => .inl member) history.nodup
  | append inside fresh =>
    refine history.record control inside _ (by simp) (by simp +contextual) (by simp) ?_
    refine List.nodup_append.mpr ⟨history.nodup, List.nodup_singleton _, ?_⟩
    intro block member other single equal
    exact fresh (List.mem_singleton.mp single ▸ equal ▸ member)
  | endLast inside notCommitting last =>
    refine history.of_phases rfl (by simp) rfl rfl rfl
      (fun other op running => State.phase_of_setPhase running (by simp)) ?_
    intro other pc committing isWritten
    have notTest : Phase.commit .test ≠ .commit pc := by
      intro equal
      cases equal
      cases isWritten
    exact .inl ⟨other, pc, State.phase_of_setPhase committing notTest, isWritten⟩
  | endOther inside notCommitting notLast =>
    exact history.of_phases rfl .inl rfl rfl rfl
      (fun other op running => (State.wakeup_phase_eq_running_iff ..).mp
        (State.phase_of_setPhase running (by simp)))
      fun other pc committing isWritten => .inl ⟨other, pc,
        (State.wakeup_phase_eq_commit_iff ..).mp (State.phase_of_setPhase committing (by simp)),
        isWritten⟩
  | commit inside => exact history.commitStep control inside
  | kill asleep => exact outside .woken (by simp) (by simp)

/-! ## Every run -/

theorem reachable (run : Steps step (boot logstart nlog) labels state) :
    Control state ∧ History state := by
  have preserved : ∀ state label next, Control state ∧ History state →
      step state label = .next next → Control next ∧ History next := by
    rintro state label next ⟨control, history⟩ stepEq
    exact ⟨control_step state label next control stepEq,
      history_step state label next control history stepEq⟩
  exact run.invariant preserved ⟨control_boot logstart nlog, history_boot logstart nlog⟩

/-- In every state of every run: while a commit is in progress no operation is
outstanding and no `log_write` is possible; all `log_write`s of one operation
are recorded in one header, the in-memory one until that header is written;
without commit and without operation the header is empty; and a process sleeps
in `begin_op` only while a commit runs or while outstanding operations have
reserved the space it needs. -/
theorem groupCommit_isolates {logstart nlog : Nat} {labels : List Label} {state : State}
    (run : Steps step (boot logstart nlog) labels state) :
    (state.log.committing = true → state.log.outstanding = 0 ∧
      ∀ process blockno, step state (process, .logWrite blockno) = .disabled) ∧
    (∀ first ∈ state.events, ∀ second ∈ state.events,
      first.op = second.op → first.txn = second.txn) ∧
    (∀ event ∈ state.events, ∃ header,
      (state.headers ++ [state.log.lh])[event.txn]? = some header ∧ event.block ∈ header) ∧
    (state.log.committing = false → state.log.outstanding = 0 → state.log.lh = []) ∧
    (∀ process, state.phase process = .asleep →
      state.log.committing = true ∨
        ((state.log.lh.length : Int) + (state.log.outstanding + 1) * maxOpBlocks > logSize ∧
          state.log.outstanding ≥ 1)) := by
  rcases reachable run with ⟨control, history⟩
  refine ⟨fun committing => ⟨control.quiet committing, fun process blockno => ?_⟩,
    history.together, fun event member => ?_, control.empty, control.sleepers⟩
  · simp only [step]
    split
    · rename_i op inside
      simp [control.notCommitting inside] at committing
    · rfl
  · rcases Nat.lt_or_eq_of_le (history.bounded event member) with earlier | last
    · refine ⟨state.headers[event.txn], ?_, ?_⟩
      · rw [List.getElem?_append_left earlier, List.getElem?_eq_getElem earlier]
      · exact history.durable event member _ (List.getElem?_eq_getElem earlier)
    · refine ⟨state.log.lh, ?_, history.current event member last⟩
      rw [last, List.getElem?_append_right (le_refl _)]
      simp

/-- Two operations share a transaction, a third process is refused, and the
commit of the two is about to copy their blocks to the log. -/
theorem groupCommit_isolates_sharedCommit :
    ∃ state, Steps step (boot 2 30)
        [(0, .beginOp), (0, .logWrite 50), (1, .beginOp), (1, .logWrite 51), (0, .logWrite 52),
          (0, .endOp), (1, .endOp), (2, .beginOp), (1, .commit)] state ∧
      (state.log.committing = true → state.log.outstanding = 0 ∧
        ∀ process blockno, step state (process, .logWrite blockno) = .disabled) ∧
      (∀ event ∈ state.events, ∃ header,
        (state.headers ++ [state.log.lh])[event.txn]? = some header ∧ event.block ∈ header) ∧
      state.log.lh = [50, 51, 52] ∧ state.phase 2 = .asleep := by
  have run : Steps step (boot 2 30)
      [(0, .beginOp), (0, .logWrite 50), (1, .beginOp), (1, .logWrite 51), (0, .logWrite 52),
        (0, .endOp), (1, .endOp), (2, .beginOp), (1, .commit)] _ := steps_iff_runSteps.mpr rfl
  have isolated := groupCommit_isolates run
  exact ⟨_, run, isolated.1, isolated.2.2.1, rfl, rfl⟩

end Xv6.Protocol
