import Xv6.Console.Machine

/-! # The reference line discipline

Input is a line that can be edited until it is committed, and a queue of committed
bytes that reads take from. -/

namespace Xv6.Console

open Function (update_self update_of_ne update_apply)

/-- The bytes that are committed and not read, the bytes that can still be edited, and
all bytes committed so far. -/
structure Line where
  committed : List UInt8
  pending : List UInt8
  log : List UInt8

namespace Line

def empty : Line := ⟨[], [], []⟩

/-- The number of bytes held. -/
def held (line : Line) : Nat := line.committed.length + line.pending.length

/-- Put a byte behind the line; a line feed, Control-D or a full buffer commits it. -/
def append (line : Line) (c : UInt8) : Line × Bool :=
  let pending := line.pending ++ [c]
  if c = lf ∨ c = ctrl 'D' ∨ line.held + 1 = inputBufSize then
    ({ committed := line.committed ++ pending, pending := [], log := line.log ++ pending }, true)
  else ({ line with pending := pending }, false)

/-- A character arrives. Nothing is stored for NUL and Control-P, and for input that
arrives when the buffer is full; Control-U and Control-H or DEL edit the line. -/
def input (line : Line) (c : UInt8) : Line × Bool :=
  if c = 0 ∨ c = ctrl 'P' then (line, false)
  else if c = ctrl 'U' then ({ line with pending := [] }, false)
  else if c = ctrl 'H' ∨ c = del then ({ line with pending := line.pending.dropLast }, false)
  else if line.held < inputBufSize then line.append (if c = cr then lf else c)
  else (line, false)

/-- What a read that was called for `target` bytes and lacks `n` of them takes from the
committed bytes. It ends after a line feed or when it has all bytes. At a Control-D it
ends too, and takes it only if the read has no bytes. -/
def deliver (killed : Bool) (target : Nat) : Nat → List UInt8 → List UInt8 × List UInt8 × Ended
  | 0, queue => (queue, [], .returned target .count)
  | n + 1, [] => ([], [], if killed then .returned (-1) .killed else .asleep (n + 1))
  | n + 1, c :: queue =>
    if c = ctrl 'D' then
      (if n + 1 < target then c :: queue else queue, [], .returned (target - (n + 1)) .endOfFile)
    else if c = lf then (queue, [c], .returned (target - n) .newline)
    else
      let rest := deliver killed target n queue
      (rest.1, c :: rest.2.1, rest.2.2)

def read (line : Line) (killed : Bool) (target n : Nat) : Line × List UInt8 × Ended :=
  let result := deliver killed target n line.committed
  ({ line with committed := result.1 }, result.2)

/-- The line discipline as a device. -/
def discipline : Device Line where
  input := input
  read := read

end Line

/-- Before any input. -/
def lineBoot : State Line where
  queue := .empty
  readers := .start

/-- The bytes without the marks of an end of file. -/
def text (bytes : List UInt8) : List UInt8 := bytes.filter (· ≠ ctrl 'D')

theorem text_append (first second : List UInt8) :
    text (first ++ second) = text first ++ text second := List.filter_append _ _

/-! ## What a read takes -/

variable {n : Nat}

section Deliver

variable {killed : Bool} {target : Nat}

theorem text_deliver (n : Nat) (queue : List UInt8) :
    text queue = (Line.deliver killed target n queue).2.1 ++
      text (Line.deliver killed target n queue).1 := by
  induction n generalizing queue with
  | zero => rfl
  | succ n induction =>
    cases queue with
    | nil => rfl
    | cons c queue =>
      rw [Line.deliver]
      split
      · rename_i mark
        subst mark
        split <;> simp [text]
      · rename_i notMark
        have kept : text (c :: queue) = c :: text queue := by simp [text, notMark]
        split
        · exact kept
        · rw [kept, induction queue]
          rfl

theorem deliver_asleep (asleep : (Line.deliver killed target n queue).2.2 = .asleep m) :
    (Line.deliver killed target n queue).1 = [] := by
  induction n generalizing queue with
  | zero => cases asleep
  | succ n induction =>
    cases queue with
    | nil => rfl
    | cons c queue =>
      rw [Line.deliver] at asleep ⊢
      split at asleep
      · cases asleep
      · rename_i notMark
        rw [if_neg notMark]
        split at asleep
        · cases asleep
        · rename_i notLf
          rw [if_neg notLf]
          exact induction asleep

end Deliver

/-- Bytes inside a line. -/
def Plain (bytes : List UInt8) : Prop := lf ∉ bytes ∧ ctrl 'D' ∉ bytes

/-- What a read that has returned has got. -/
def Return.Right (result : Return) : Prop :=
  match result.why with
  | .count =>
    result.value = result.got.length ∧ result.got.length = result.wanted ∧ Plain result.got
  | .newline =>
    result.value = result.got.length ∧ result.got.length ≤ result.wanted ∧
      ∃ line, result.got = line ++ [lf] ∧ Plain line
  | .endOfFile =>
    result.value = result.got.length ∧ result.got.length < result.wanted ∧ Plain result.got
  | .killed => result.value = -1 ∧ Plain result.got

/-- What a running read has got. -/
structure Read.Right (read : Read) : Prop where
  length : read.got.length + read.n = read.target
  plain : Plain read.got

theorem Plain.snoc (plain : Plain bytes) (notMark : c ≠ ctrl 'D') (notLf : c ≠ lf) :
    Plain (bytes ++ [c]) := by
  constructor
  · simpa [plain.1] using notLf.symm
  · simpa [plain.2] using notMark.symm

/-- How a read stops, with the bytes that it has got. -/
def Ended.Right (target : Nat) (got : List UInt8) : Ended → Prop
  | .returned value why => Return.Right ⟨target, got, value, why⟩
  | .asleep n => Read.Right ⟨n, target, got⟩

theorem deliver_right (killed : Bool) (right : Read.Right ⟨n, target, got⟩) (queue : List UInt8) :
    (Line.deliver killed target n queue).2.2.Right target
      (got ++ (Line.deliver killed target n queue).2.1) := by
  induction n generalizing queue got with
  | zero =>
    have length := right.length
    simp only [Nat.add_zero] at length
    rw [Line.deliver, List.append_nil]
    exact ⟨congrArg _ length.symm, length, right.plain⟩
  | succ n induction =>
    have length := right.length
    simp only at length
    cases queue with
    | nil =>
      rw [Line.deliver, List.append_nil]
      cases killed with
      | true => exact ⟨rfl, right.plain⟩
      | false => exact right
    | cons c queue =>
      rw [Line.deliver]
      split
      · rw [List.append_nil]
        refine ⟨?_, ?_, right.plain⟩
        · simp only
          omega
        · simp only
          omega
      · rename_i notMark
        split
        · rename_i isLf
          refine ⟨?_, ?_, got, isLf ▸ rfl, right.plain⟩
          · simp only [List.length_append, List.length_singleton]
            omega
          · simp only [List.length_append, List.length_singleton]
            omega
        · rename_i notLf
          have next : Read.Right ⟨n, target, got ++ [c]⟩ := by
            refine ⟨?_, right.plain.snoc notMark notLf⟩
            simp only [List.length_append, List.length_singleton]
            omega
          have rest := induction next queue
          rwa [List.append_assoc] at rest

/-! ## Runs of the line discipline -/

/-- Whether a reader is right, if it is reading. -/
def Reader.Right : Reader → Prop
  | .idle => True
  | .asleep read | .woken read => read.Right

structure LineOk (state : State Line) : Prop where
  readers : ∀ p, (state.readers.reader p).Right
  returned : ∀ result ∈ state.readers.returned, result.Right
  /-- Nobody sleeps while there are committed bytes. -/
  asleep : ∀ p read, state.readers.reader p = .asleep read → state.queue.committed = []
  /-- What was committed has been delivered, or is still committed. -/
  log : text state.queue.log = state.readers.delivered ++ text state.queue.committed

theorem wake_right {reader : Reader} (right : reader.Right) : (Readers.wake reader).Right := by
  cases reader <;> exact right

theorem wake_ne_asleep (reader : Reader) (read : Read) : Readers.wake reader ≠ .asleep read := by
  intro equal
  cases reader <;> cases equal

/-- What a character commits goes behind the committed bytes; if it wakes nobody, it
commits nothing. -/
def Commits (line : Line) (result : Line × Bool) : Prop :=
  ∃ bytes, result.1.committed = line.committed ++ bytes ∧ result.1.log = line.log ++ bytes ∧
    (result.2 = false → bytes = [])

theorem Commits.nothing : Commits line ({ line with pending := pending }, false) :=
  ⟨[], (List.append_nil _).symm, (List.append_nil _).symm, fun _ => rfl⟩

theorem append_commits (line : Line) (c : UInt8) : Commits line (line.append c) := by
  rw [Line.append]
  split
  · exact ⟨_, rfl, rfl, fun equal => by cases equal⟩
  · exact .nothing

theorem input_commits (line : Line) (c : UInt8) : Commits line (line.input c) := by
  rw [Line.input]
  split
  · exact .nothing
  · split
    · exact .nothing
    · split
      · exact .nothing
      · split
        · exact append_commits line _
        · exact .nothing

variable {state : State Line}

theorem intr_ok (ok : LineOk state) (c : UInt8) :
    LineOk
      { queue := (state.queue.input c).1
        readers := if (state.queue.input c).2 then state.readers.wakeup else state.readers } := by
  rcases input_commits state.queue c with ⟨bytes, committed, log, quiet⟩
  have same : (if (state.queue.input c).2 then state.readers.wakeup else state.readers).delivered =
      state.readers.delivered := by
    split <;> rfl
  constructor
  case readers =>
    intro p
    simp only
    split
    · exact wake_right (ok.readers p)
    · exact ok.readers p
  case returned =>
    simp only
    split <;> exact ok.returned
  case asleep =>
    intro p read here
    simp only at here
    split at here
    · exact absurd here (wake_ne_asleep _ _)
    · rename_i silent
      have none := quiet (Bool.not_eq_true _ ▸ silent)
      simp only
      rw [committed, none, List.append_nil]
      exact ok.asleep p read here
  case log =>
    simp only
    rw [log, committed, text_append, text_append, same, ok.log, List.append_assoc]

theorem advance_delivered (readers : Readers) (p : Nat) (read : Read) (bytes : List UInt8)
    (ended : Ended) : (readers.advance p read bytes ended).delivered =
      readers.delivered ++ bytes := by
  cases ended <;> rfl

theorem deliver_nil (killed : Bool) (target n : Nat) :
    (Line.deliver killed target n []).1 = [] := by
  cases n <;> rfl

theorem advance_reader (readers : Readers) (p : Nat) (read : Read) (bytes : List UInt8)
    (ended : Ended) (different : q ≠ p) :
    (readers.advance p read bytes ended).reader q = readers.reader q := by
  cases ended <;> exact update_of_ne different _ _

theorem advance_right {readers : Readers} {read : Read} {ended : Ended}
    (right : ended.Right read.target (read.got ++ bytes)) (others : ∀ p, (readers.reader p).Right)
    (before : ∀ result ∈ readers.returned, result.Right) (p : Nat) :
    (∀ q, ((readers.advance p read bytes ended).reader q).Right) ∧
      ∀ result ∈ (readers.advance p read bytes ended).returned, result.Right := by
  constructor
  · intro q
    by_cases self : q = p
    · subst self
      cases ended with
      | returned value why =>
        simp only [Readers.advance, update_self]
        trivial
      | asleep n =>
        simp only [Readers.advance, update_self]
        exact right
    · rw [advance_reader _ _ _ _ _ self]
      exact others q
  · cases ended with
    | returned value why =>
      intro result member
      rcases List.mem_append.mp member with member | member
      · exact before result member
      · rw [List.mem_singleton.mp member]
        exact right
    | asleep n => exact before

theorem runReader_ok {read : Read} (ok : LineOk state) (p : Nat) (killed : Bool)
    (right : read.Right) : LineOk (runReader Line.discipline state p read killed) := by
  have ended := deliver_right killed right state.queue.committed
  have both := advance_right ended ok.readers ok.returned p
  constructor
  case readers => exact both.1
  case returned => exact both.2
  case asleep =>
    intro q read' here
    by_cases self : q = p
    · subst self
      apply deliver_asleep (m := read'.n)
      simp only [runReader, Line.discipline, Line.read] at here
      cases result : (Line.deliver killed read.target read.n state.queue.committed).2.2 with
      | returned value why =>
        rw [result] at here
        simp only [Readers.advance, update_self] at here
        cases here
      | asleep n =>
        rw [result] at here
        simp only [Readers.advance, update_self, Reader.asleep.injEq] at here
        rw [← here]
    · simp only [runReader, Line.discipline, Line.read] at here ⊢
      rw [advance_reader _ _ _ _ _ self] at here
      rw [ok.asleep q read' here]
      exact deliver_nil _ _ _
  case log =>
    simp only [runReader, Line.discipline, Line.read]
    rw [advance_delivered, ok.log, @text_deliver killed read.target read.n, List.append_assoc]

theorem step_lineOk (ok : LineOk state) (stepEq : step Line.discipline state label = .next next) :
    LineOk next := by
  cases label with
  | intr c =>
    cases stepEq
    exact intr_ok ok c
  | read p n killed =>
    simp only [step] at stepEq
    split at stepEq
    · cases stepEq
      exact runReader_ok ok p killed ⟨Nat.zero_add _, List.not_mem_nil, List.not_mem_nil⟩
    · cases stepEq
  | resume p killed =>
    simp only [step] at stepEq
    split at stepEq
    · rename_i read here
      have right := ok.readers p
      rw [here] at right
      cases stepEq
      exact runReader_ok ok p killed right
    · cases stepEq
  | kill p =>
    cases stepEq
    constructor
    case readers =>
      intro q
      simp only [update_apply]
      split
      · exact wake_right (ok.readers p)
      · exact ok.readers q
    case returned => exact ok.returned
    case asleep =>
      intro q read here
      simp only [update_apply] at here
      split at here
      · exact absurd here (wake_ne_asleep _ _)
      · exact ok.asleep q read here
    case log => exact ok.log

theorem lineOk_boot : LineOk lineBoot where
  readers := fun _ => trivial
  returned := fun _ member => absurd member List.not_mem_nil
  asleep := fun _ _ here => by cases here
  log := rfl

end Xv6.Console
