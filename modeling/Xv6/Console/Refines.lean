import Xv6.Foundation.Fifo
import Xv6.Console.Line

/-! # The console refines the line discipline -/

namespace Xv6.Console

/-- The ring holds a line: the committed bytes from `r` to `w` and the others from `w`
to `e`. -/
structure Holds (cons : Cons) (line : Line) : Prop where
  fifo : Fifo inputBufSize (2 ^ 32) cons.buf cons.r.toNat cons.e.toNat
    (line.committed ++ line.pending)
  write : cons.w.toNat = (cons.r.toNat + line.committed.length) % 2 ^ 32
  plain : lf ∉ line.pending
  full : line.held = inputBufSize → line.pending = []

theorem sub_toNat_eq_zero_iff (first second : UInt32) :
    (first - second).toNat = 0 ↔ first = second := by
  have bound := first.toNat_lt
  have bound' := second.toNat_lt
  rw [← UInt32.toNat_inj, UInt32.toNat_sub]
  omega

namespace Holds

variable {cons : Cons} {line : Line}

theorem small : inputBufSize < 2 ^ 32 := by decide

theorem divides : inputBufSize ∣ 2 ^ 32 := by decide

section

variable (holds : Holds cons line)

include holds

theorem held_le : line.held ≤ inputBufSize := by
  have length := holds.fifo.length
  rwa [List.length_append] at length

theorem e_sub_r : (cons.e - cons.r).toNat = line.held := by
  rw [UInt32.toNat_sub, Nat.add_comm, holds.fifo.difference small, List.length_append]
  rfl

theorem w_sub_r : (cons.w - cons.r).toNat = line.committed.length := by
  have bound := holds.held_le
  have reader := cons.r.toNat_lt
  rw [Line.held, inputBufSize] at bound
  rw [UInt32.toNat_sub, holds.write]
  omega

theorem e_sub_w : (cons.e - cons.w).toNat = line.pending.length := by
  have bound := holds.held_le
  have reader := cons.r.toNat_lt
  have edit := holds.fifo.nwrite_eq
  rw [List.length_append] at edit
  rw [Line.held, inputBufSize] at bound
  rw [UInt32.toNat_sub, holds.write, edit]
  omega

theorem r_eq_w_iff : cons.r = cons.w ↔ line.committed = [] := by
  rw [← List.length_eq_zero_iff, ← holds.w_sub_r, sub_toNat_eq_zero_iff]
  exact eq_comm

theorem e_eq_w_iff : cons.e = cons.w ↔ line.pending = [] := by
  rw [← List.length_eq_zero_iff, ← holds.e_sub_w, sub_toNat_eq_zero_iff]

theorem unput (split : line.pending = init ++ [c]) :
    cons.get (cons.e - 1) = c ∧
      Holds { cons with e := cons.e - 1 } { line with pending := init } := by
  have fifo := holds.fifo
  rw [split, ← List.append_assoc] at fifo
  rcases fifo.unput small with ⟨cell, back⟩
  have index : (cons.e - 1).toNat = (2 ^ 32 - 1 + cons.e.toNat) % 2 ^ 32 := UInt32.toNat_sub _ _
  rw [← index] at cell back
  refine ⟨cell, back, holds.write, ?_, ?_⟩
  · intro member
    exact holds.plain (split ▸ List.mem_append_left _ member)
  · intro full
    have bound := holds.held_le
    rw [Line.held, split, List.length_append, List.length_singleton] at bound
    rw [Line.held] at full
    simp only at full
    omega

theorem killLine : Holds (cons.killLine line.pending.length) { line with pending := [] } := by
  generalize length : line.pending.length = rounds
  induction rounds generalizing cons line with
  | zero =>
    have none := List.length_eq_zero_iff.mp length
    rw [← none]
    exact holds
  | succ rounds induction =>
    have nonempty : line.pending ≠ [] := by
      intro none
      rw [none] at length
      cases length
    have split := (List.dropLast_concat_getLast nonempty).symm
    rcases holds.unput split with ⟨cell, back⟩
    have notLf : cons.get (cons.e - 1) ≠ lf := by
      rw [cell]
      intro equal
      exact holds.plain (equal ▸ List.getLast_mem nonempty)
    have different : cons.e ≠ cons.w := fun equal => nonempty (holds.e_eq_w_iff.mp equal)
    rw [Cons.killLine, if_pos ⟨different, notLf⟩]
    apply induction back
    rw [List.length_dropLast, length]
    rfl

omit holds in
theorem put (holds : Holds cons line) (space : line.held < inputBufSize) (c : UInt8) :
    Fifo inputBufSize (2 ^ 32) (cons.set cons.e c).buf cons.r.toNat (cons.e + 1).toNat
      (line.committed ++ (line.pending ++ [c])) := by
  have short : (line.committed ++ line.pending).length < inputBufSize := by
    rw [List.length_append]
    exact space
  have put := holds.fifo.put divides short c
  rw [List.append_assoc] at put
  rw [UInt32.toNat_add]
  exact put

theorem full_iff (space : line.held < inputBufSize) (c : UInt8) :
    cons.e + 1 - cons.r = 128 ↔ line.held + 1 = inputBufSize := by
  have fifo := holds.put space c
  have difference : (cons.e + 1 - cons.r).toNat = line.held + 1 := by
    rw [UInt32.toNat_sub, Nat.add_comm, fifo.difference small]
    simp only [List.length_append, List.length_singleton, Line.held]
    omega
  rw [← UInt32.toNat_inj, difference]
  rfl

theorem store (c : UInt8) :
    (cons.store c).2 =
        (if c ≠ 0 ∧ line.held < inputBufSize then line.append (if c = cr then lf else c)
          else (line, false)).2 ∧
      Holds (cons.store c).1
        (if c ≠ 0 ∧ line.held < inputBufSize then line.append (if c = cr then lf else c)
          else (line, false)).1 := by
  have room : cons.e - cons.r < 128 ↔ line.held < inputBufSize := by
    rw [UInt32.lt_iff_toNat_lt, holds.e_sub_r]
    rfl
  rw [Cons.store]
  simp only [room]
  split
  · rename_i stored
    generalize (if c = cr then lf else c) = byte
    have fifo := holds.put stored.2 byte
    have full := holds.full_iff stored.2 byte
    have index : ({ cons.set cons.e byte with e := cons.e + 1 } : Cons).e -
        ({ cons.set cons.e byte with e := cons.e + 1 } : Cons).r = cons.e + 1 - cons.r := rfl
    rw [Line.append]
    simp only [index, full]
    split
    · refine ⟨rfl, ?_, ?_, List.not_mem_nil, fun _ => rfl⟩
      · simp only [List.append_nil]
        exact fifo
      · exact fifo.nwrite_eq
    · rename_i open_
      refine ⟨rfl, fifo, holds.write, ?_, ?_⟩
      · intro member
        rcases List.mem_append.mp member with member | member
        · exact holds.plain member
        · exact open_ (.inl (List.mem_singleton.mp member).symm)
      · intro isFull
        simp only [Line.held, List.length_append, List.length_singleton] at isFull
        exact absurd (.inr (.inr (by rw [Line.held]; omega))) open_
  · exact ⟨rfl, holds⟩

theorem consoleintr (c : UInt8) :
    (cons.consoleintr c).2 = (line.input c).2 ∧ Holds (cons.consoleintr c).1 (line.input c).1 := by
  have stored := holds.store c
  rw [Cons.consoleintr, Line.input]
  by_cases zero : c = 0
  · subst zero
    exact stored
  · simp only [zero, false_or, ne_eq, not_false_eq_true, true_and] at stored ⊢
    split
    · exact ⟨rfl, holds⟩
    · split
      · rw [holds.e_sub_w]
        exact ⟨rfl, holds.killLine⟩
      · split
        · refine ⟨rfl, ?_⟩
          simp only
          split
          · rename_i different
            have nonempty : line.pending ≠ [] := fun none =>
              different (holds.e_eq_w_iff.mpr none)
            exact (holds.unput (List.dropLast_concat_getLast nonempty).symm).2
          · rename_i same
            have none := holds.e_eq_w_iff.mp (not_not.mp same)
            have unchanged : line.pending.dropLast = line.pending := by
              rw [none]
              rfl
            rw [unchanged]
            exact holds
        · exact stored

omit holds in
theorem take {c : UInt8} {rest : List UInt8} (holds : Holds cons line)
    (split : line.committed = c :: rest) :
    cons.get cons.r = c ∧ Holds { cons with r := cons.r + 1 } { line with committed := rest } := by
  have fifo := holds.fifo
  rw [split] at fifo
  rcases fifo.take with ⟨cell, taken⟩
  refine ⟨cell, ?_, ?_, holds.plain, ?_⟩
  · rw [UInt32.toNat_add]
    exact taken
  · rw [UInt32.toNat_add]
    simp only
    rw [holds.write, split, List.length_cons, Nat.mod_add_mod, Nat.add_right_comm, Nat.add_assoc]
    rfl
  · intro full
    have bound := holds.held_le
    rw [Line.held, split, List.length_cons] at bound
    rw [Line.held] at full
    simp only at full
    omega

theorem consoleread (killed : Bool) (target n : Nat) :
    (cons.consoleread killed target n).2 =
        (Line.deliver killed target n line.committed).2 ∧
      Holds (cons.consoleread killed target n).1
        { line with committed := (Line.deliver killed target n line.committed).1 } := by
  induction n generalizing cons line with
  | zero => exact ⟨rfl, holds⟩
  | succ n induction =>
    rw [Cons.consoleread]
    split
    · rename_i empty
      have none := holds.r_eq_w_iff.mp empty
      rw [none, Line.deliver]
      cases killed with
      | true | false => exact ⟨rfl, none ▸ holds⟩
    · rename_i nonempty
      cases committed : line.committed with
      | nil => exact absurd (holds.r_eq_w_iff.mpr committed) nonempty
      | cons c rest =>
        rcases holds.take committed with ⟨cell, taken⟩
        simp only [cell, Line.deliver]
        split
        · refine ⟨rfl, ?_⟩
          simp only
          split
          · -- the mark is put back
            rw [UInt32.add_sub_cancel, ← committed]
            exact holds
          · exact taken
        · split
          · exact ⟨rfl, taken⟩
          · have next := induction taken
            refine ⟨?_, next.2⟩
            rw [next.1]

end

end Holds

/-! ## Runs -/

variable {state next : State Cons} {line : Line} {label : Label}

theorem runReader_refines (holds : Holds state.queue line) (p : Nat) (read : Read)
    (killed : Bool) : ∃ line',
      runReader Line.discipline ⟨line, state.readers⟩ p read killed =
        ⟨line', (runReader console state p read killed).readers⟩ ∧
      Holds (runReader console state p read killed).queue line' := by
  have result := holds.consoleread killed read.target read.n
  refine ⟨_, ?_, result.2⟩
  simp only [runReader, console, Line.discipline, Line.read, result.1]

theorem step_refines (holds : Holds state.queue line)
    (stepEq : step console state label = .next next) : ∃ line',
      step Line.discipline ⟨line, state.readers⟩ label = .next ⟨line', next.readers⟩ ∧
      Holds next.queue line' := by
  cases label with
  | intr c =>
    have result := holds.consoleintr c
    cases stepEq
    refine ⟨_, ?_, result.2⟩
    simp only [step, console, Line.discipline, result.1]
    rfl
  | read p n killed =>
    simp only [step] at stepEq ⊢
    split at stepEq
    · rename_i idle
      cases stepEq
      rcases runReader_refines holds p ⟨n.toNat, n.toNat, []⟩ killed with ⟨line', same, after⟩
      exact ⟨line', congrArg Outcome.next same, after⟩
    · cases stepEq
  | resume p killed =>
    simp only [step] at stepEq ⊢
    split at stepEq
    · rename_i read woken
      cases stepEq
      rcases runReader_refines holds p read killed with ⟨line', same, after⟩
      exact ⟨line', congrArg Outcome.next same, after⟩
    · cases stepEq
  | kill p =>
    cases stepEq
    exact ⟨line, rfl, holds⟩

/-- Every run of the console is a run of the line discipline, with the same readers. -/
theorem run_refines (run : Steps (step console) state labels next) (holds : Holds state.queue line) :
    ∃ line',
      Steps (step Line.discipline) ⟨line, state.readers⟩ labels ⟨line', next.readers⟩ ∧
      Holds next.queue line' := by
  induction run generalizing line with
  | nil state => exact ⟨line, .nil _, holds⟩
  | cons stepEq _ induction =>
    rcases step_refines holds stepEq with ⟨middle, first, after⟩
    rcases induction after with ⟨line', rest, last⟩
    exact ⟨line', .cons first rest, last⟩

theorem holds_boot (buf : Nat → UInt8) : Holds (boot buf).queue .empty where
  fifo := Fifo.nil (Nat.two_pow_pos 32)
  write := rfl
  plain := List.not_mem_nil
  full := fun _ => rfl

/-- In every run of the console, with any number of readers: the indices are in order,
modulo `2 ^ 32`, and a full buffer is committed; nobody sleeps while there is something
to read; the run is a run of the line discipline, in which the readers get the same
bytes and reads return the same; and the bytes delivered are those committed, in order,
up to what is still committed. -/
theorem console_refines_line_discipline {buf : Nat → UInt8} {labels : List Label}
    (run : Steps (step console) (boot buf) labels state) :
    (state.queue.w - state.queue.r).toNat ≤ (state.queue.e - state.queue.r).toNat ∧
    (state.queue.e - state.queue.r).toNat ≤ inputBufSize ∧
    ((state.queue.e - state.queue.r).toNat = inputBufSize → state.queue.w = state.queue.e) ∧
    (∀ p read, state.readers.reader p = .asleep read → state.queue.r = state.queue.w) ∧
    ∃ line, Steps (step Line.discipline) lineBoot labels ⟨line, state.readers⟩ ∧
      text line.log = state.readers.delivered ++ text line.committed ∧
      ∀ result ∈ state.readers.returned, result.Right := by
  rcases run_refines run (holds_boot buf) with ⟨line, reference, holds⟩
  have ok : LineOk ⟨line, state.readers⟩ :=
    reference.invariant (fun _ _ _ ok stepEq => step_lineOk ok stepEq) lineOk_boot
  refine ⟨?_, ?_, ?_, ?_, line, reference, ok.log, ok.returned⟩
  · rw [holds.w_sub_r, holds.e_sub_r]
    exact Nat.le_add_right _ _
  · rw [holds.e_sub_r]
    exact holds.held_le
  · intro full
    rw [holds.e_sub_r] at full
    exact (holds.e_eq_w_iff.mpr (holds.full full)).symm
  · intro p read asleep
    exact holds.r_eq_w_iff.mpr (ok.asleep p read asleep)

/-- A reader waits for a line; "ab", a backspace, "c" and a carriage return arrive, and
an end of file; the reader goes on, and reads twice more. -/
def typeAndRead : List Label :=
  [.read 0 10 false, .intr 97, .intr 98, .intr 8, .intr 99, .intr 13, .intr 100, .intr 4,
    .resume 0 false, .read 0 10 false, .read 1 10 false]

theorem console_refines_line_discipline_typeAndRead : ∃ state,
    Steps (step console) (boot fun _ => 0) typeAndRead state ∧
      state.readers.delivered = [97, 99, 10, 100] ∧
      ∃ line, Steps (step Line.discipline) lineBoot typeAndRead ⟨line, state.readers⟩ ∧
        text line.log = state.readers.delivered ++ text line.committed ∧
        ∀ result ∈ state.readers.returned, result.Right := by
  have ran := Outcome.eq_next_of_isNext (boot fun _ => 0)
    (show (runSteps (step console) (boot fun _ => 0) typeAndRead).isNext = true by decide +kernel)
  have run := steps_iff_runSteps.mpr ran
  exact ⟨_, run, by decide +kernel, (console_refines_line_discipline run).2.2.2.2⟩

end Xv6.Console
