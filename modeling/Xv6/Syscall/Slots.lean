import Xv6.Syscall.Moves

/-! # What happens to one slot of the process table -/

namespace Xv6.Syscalls

open Function (update update_self update_of_ne update_apply)

structure Ok (state : State) : Prop where
  /-- The child of a running `fork` is not yet in use, and it is of one `fork`. -/
  embryo : ∀ p np, (state.proc p).pc.child = some np → (state.proc np).state = .used
  children : ∀ p q np, (state.proc p).pc.child = some np → (state.proc q).pc.child = some np → p = q
  numbers : ∀ q, state.Live q → (state.proc q).number < state.created
  distinct : ∀ p q, state.Live p → state.Live q →
    (state.proc p).number = (state.proc q).number → p = q

/-- What a step of `p` does to the slot `q`, which holds `after` then. -/
inductive SlotStep (state : State) (p q : Nat) (after : Proc) : Option Event → Prop
  | kept {event} (kept : Kept (state.proc q) after)
      (quiet : ∀ mask, event = some (.traced (state.proc p).number mask) → q ≠ p) :
      SlotStep state p q after event
  | created (unused : (state.proc q).state = .unused) (live : after.state ≠ .unused)
      (number : after.number = state.created) (mask : after.mask = (state.proc p).mask)
      (killed : after.killed = (state.proc q).killed) :
      SlotStep state p q after (some (.created state.created (some (state.proc p).number)))
  | freed {event} (unused : after.state = .unused) (pid : after.pid = 0)
      (killed : after.killed = false) : SlotStep state p q after event
  | killed {slot} (live : after.state = .unused ↔ (state.proc q).state = .unused)
      (pid : after.pid = (state.proc q).pid) (mask : after.mask = (state.proc q).mask)
      (number : after.number = (state.proc q).number)
      (here : (state.proc p).pc = .kill (state.proc q).pid slot) :
      SlotStep state p q after (some (.killed (state.proc q).pid q))
  | traced (self : q = p) (live : after.state = .unused ↔ (state.proc q).state = .unused)
      (pid : after.pid = (state.proc q).pid) (killed : after.killed = (state.proc q).killed)
      (number : after.number = (state.proc q).number) :
      SlotStep state p q after (some (.traced (state.proc p).number after.mask))

variable {state next : State} {p q : Nat} {action : Action} {table : Nat → Proc}
  {event : Option Event}

variable {np : Nat} {proc proc' : Proc}

theorem withTwo_cases (Holds : Nat → Proc → Prop) (mine : Holds p proc) (theirs : Holds np proc')
    (rest : ∀ q, Holds q (state.proc q)) (q : Nat) :
    Holds q (withTwo state.proc p proc np proc' q) := by
  rw [withTwo, update_apply]
  split
  · rename_i second
    exact second ▸ theirs
  · rw [update_apply]
    split
    · rename_i first
      exact first ▸ mine
    · exact rest q

variable {table : Nat → Proc}

theorem update_cases (Holds : Nat → Proc → Prop) (mine : Holds p proc)
    (rest : ∀ q, q ≠ p → Holds q (table q)) (q : Nat) : Holds q (update table p proc q) := by
  rw [update_apply]
  split
  · rename_i first
    exact first ▸ mine
  · rename_i different
    exact rest q different

theorem SlotStep.refl (quiet : ∀ mask, event ≠ some (.traced (state.proc p).number mask))
    (q : Nat) : SlotStep state p q (state.proc q) event :=
  .kept (Kept.refl _) fun mask equal => absurd equal (quiet mask)

theorem SlotStep.goto (quiet : ∀ mask, event ≠ some (.traced (state.proc p).number mask))
    (pc : Pc) : SlotStep state p p ((state.proc p).goto pc) event :=
  .kept (Kept.goto _ _) fun mask equal => absurd equal (quiet mask)

theorem reparent_kept (p : Nat) (table : Nat → Proc) (q : Nat) :
    Kept (table q) (reparent p table q) := by
  rw [reparent]
  split
  · exact ⟨Iff.rfl, rfl, rfl, rfl, rfl⟩
  · exact Kept.refl _

theorem Moves.slotStep (ok : Ok state) (active : state.Active p)
    (moves : Moves state p action table event) (q : Nat) :
    SlotStep state p q (table q) event := by
  have live := active.live
  have noEvent : ∀ mask, (none : Option Event) ≠ some (.traced (state.proc p).number mask) :=
    fun mask equal => by cases equal
  have kept : ∀ {r after}, Kept (state.proc r) after → SlotStep state p r after none :=
    fun kept => .kept kept fun mask equal => absurd equal (noEvent mask)
  cases moves with
  | goto same child kill =>
    apply update_cases fun r after => SlotStep state p r after none
    · exact kept same
    · exact fun r _ => .refl noEvent r
  | exit user =>
    apply update_cases fun r after => SlotStep state p r after none
    · have same := reparent_kept p state.proc p
      apply kept
      refine ⟨⟨fun equal => ?_, fun equal => absurd equal live⟩, same.pid, same.killed, same.mask,
        same.number⟩
      cases equal
    · exact fun r _ => kept (reparent_kept p state.proc r)
  | @trace num arg user =>
    apply update_cases fun r after =>
      SlotStep state p r after (some (.traced (state.proc p).number arg))
    · exact @SlotStep.traced state p p { state.proc p with
        mask := arg, pc := .returned num.toNatClampNeg 0 } rfl Iff.rfl rfl rfl rfl
    · exact fun r different => .kept (Kept.refl _) fun _ _ => different
  | @create np unused =>
    have notTraced : ∀ mask, some (Event.created state.created (some (state.proc p).number)) ≠
        some (.traced (state.proc p).number mask) := fun mask equal => by cases equal
    apply withTwo_cases fun r after => SlotStep state p r after
      (some (.created state.created (some (state.proc p).number)))
    · exact .goto notTraced _
    · exact .created unused (fun equal => by cases equal) rfl rfl rfl
    · exact SlotStep.refl notTraced
  | createFail | reap =>
    apply withTwo_cases fun r after => SlotStep state p r after none
    · exact .goto noEvent _
    · exact .freed rfl rfl rfl
    · exact SlotStep.refl noEvent
  | @forkParent np here =>
    apply withTwo_cases fun r after => SlotStep state p r after none
    · exact .goto noEvent _
    · exact kept ⟨Iff.rfl, rfl, rfl, rfl, rfl⟩
    · exact SlotStep.refl noEvent
  | @forkReady np here =>
    apply withTwo_cases fun r after => SlotStep state p r after none
    · exact .goto noEvent _
    · have used := ok.embryo p np (by rw [here]; rfl)
      apply kept
      refine ⟨?_, rfl, rfl, rfl, rfl⟩
      rw [used]
      constructor <;> (intro equal; cases equal)
    · exact SlotStep.refl noEvent
  | @kill pid slot here found =>
    subst found
    have notTraced : ∀ mask, some (Event.killed (state.proc slot).pid slot) ≠
        some (.traced (state.proc p).number mask) := fun mask equal => by cases equal
    have live' : (killProc (state.proc slot)).state = .unused ↔
        (state.proc slot).state = .unused := by
      rw [killProc]
      by_cases asleep : (state.proc slot).state = .sleeping <;> simp [asleep]
    by_cases self : p = slot
    · subst self
      apply update_cases fun r after => SlotStep state p r after _
      · rw [update_self]
        exact .killed live' rfl rfl rfl here
      · intro r different
        rw [update_of_ne different]
        exact .refl notTraced r
    · apply update_cases fun r after => SlotStep state p r after _
      · rw [update_of_ne self]
        exact .goto notTraced _
      · intro r _
        apply update_cases fun r after => SlotStep state p r after _
        · exact .killed live' rfl rfl rfl here
        · exact fun r _ => .refl notTraced r
  | @print num value here =>
    have notTraced : ∀ mask, some (Event.returned (state.proc p).number num
        (traces num (state.proc p).mask)) ≠ some (.traced (state.proc p).number mask) :=
      fun mask equal => by cases equal
    apply update_cases fun r after => SlotStep state p r after _
    · exact .goto notTraced _
    · exact fun r _ => .refl notTraced r

/-! ## The invariant -/

theorem SlotStep.live_before (slot : SlotStep state p q (table q) event)
    (live : (table q).state ≠ .unused) :
    state.Live q ∧ (table q).number = (state.proc q).number ∨
      (table q).number = state.created ∧ Event.creates event = 1 ∧ ¬ state.Live q := by
  cases slot with
  | kept kept quiet => exact .inl ⟨fun unused => live (kept.live.mpr unused), kept.number⟩
  | created unused _ number => exact .inr ⟨number, rfl, fun live => live unused⟩
  | freed unused => exact absurd unused live
  | killed same _ _ number => exact .inl ⟨fun unused => live (same.mpr unused), number⟩
  | traced _ same _ _ number => exact .inl ⟨fun unused => live (same.mpr unused), number⟩

theorem withTwo_of_ne (notFirst : q ≠ p) (notSecond : q ≠ np) :
    withTwo table p proc np proc' q = table q := by
  rw [withTwo, update_of_ne notSecond, update_of_ne notFirst]

theorem withTwo_first (different : p ≠ np) : withTwo table p proc np proc' p = proc := by
  rw [withTwo, update_of_ne different, update_self]

theorem withTwo_second (table : Nat → Proc) (p np : Nat) (proc proc' : Proc) :
    withTwo table p proc np proc' np = proc' := by
  rw [withTwo, update_self]

theorem reparent_pc (p : Nat) (table : Nat → Proc) (q : Nat) :
    (reparent p table q).pc = (table q).pc := by
  rw [reparent]
  split <;> rfl

theorem Moves.child_of_ne (moves : Moves state p action table event) (different : q ≠ p)
    (child : (table q).pc.child = some np) : (state.proc q).pc.child = some np := by
  have two : ∀ {np' : Nat} {proc proc' : Proc}, table = withTwo state.proc p proc np' proc' →
      (proc'.pc.child = none ∨ proc'.pc = (state.proc np').pc) →
      (state.proc q).pc.child = some np := by
    intro np' proc proc' equal second
    rw [equal] at child
    by_cases same : q = np'
    · rw [same, withTwo_second] at child
      rcases second with none | pc
      · rw [none] at child
        cases child
      · rwa [same, ← pc]
    · rwa [withTwo_of_ne different same] at child
  cases moves with
  | goto | trace | print => rwa [update_of_ne different] at child
  | exit => rwa [update_of_ne different, reparent_pc] at child
  | create => exact two rfl (.inl rfl)
  | createFail | forkParent | forkReady | reap => exact two rfl (.inr rfl)
  | @kill pid slot here found =>
    rw [update_of_ne different, update_apply] at child
    split at child
    · rename_i same
      rw [same]
      exact child
    · exact child

section

variable (active : state.Active p) (moves : Moves state p action table event)

include active moves

theorem Moves.child_self (child : (table p).pc.child = some np) :
    (state.proc p).pc.child = some np ∨
      (state.proc np).state = .unused ∧ (table np).state = .used := by
  have two : ∀ {np' : Nat} {pc : Pc} {proc' : Proc},
      table = withTwo state.proc p ((state.proc p).goto pc) np' proc' →
      (pc.child = none ∨ pc.child = (state.proc p).pc.child) →
      proc'.pc = (state.proc np').pc → (state.proc p).pc.child = some np := by
    intro np' pc proc' equal first second
    rw [equal] at child
    by_cases same : p = np'
    · rw [← same, withTwo_second] at child
      rwa [same, ← second]
    · rw [withTwo_first same] at child
      rcases first with none | pc
      · exact absurd (none.symm.trans child) (by simp)
      · exact pc ▸ child
  cases moves with
  | goto kept child' kill =>
    rw [update_self] at child
    rcases child' with none | same
    · rw [none] at child
      cases child
    · exact .inl (same ▸ child)
  | exit =>
    rw [update_self] at child
    exact .inl (reparent_pc p state.proc p ▸ child)
  | trace | print | kill =>
    rw [update_self] at child
    cases child
  | @create np' unused =>
    have different : p ≠ np' := by
      intro equal
      exact active.live (equal ▸ unused)
    rw [withTwo_first different] at child
    cases child
    rw [withTwo_second]
    exact .inr ⟨unused, rfl⟩
  | createFail | forkReady | reap => exact .inl (two rfl (.inl rfl) rfl)
  | forkParent here => exact .inl (two rfl (.inr (by rw [here]; rfl)) rfl)

theorem Moves.newborn (creates : Event.creates event = 1) (unused : (state.proc q).state = .unused)
    (live : (table q).state ≠ .unused) (unused' : (state.proc r).state = .unused)
    (live' : (table r).state ≠ .unused) : q = r := by
  have notSelf : ∀ {q}, (state.proc q).state = .unused → q ≠ p := by
    intro q unused equal
    exact active.live (equal ▸ unused)
  cases moves with
  | @create np' free =>
    by_cases first : q = np'
    · by_cases second : r = np'
      · rw [first, second]
      · rw [withTwo_of_ne (notSelf unused') second] at live'
        exact absurd unused' live'
    · rw [withTwo_of_ne (notSelf unused) first] at live
      exact absurd unused live
  | _ => cases creates

/-- A slot that `fork` fills is not written by others, until `fork` makes it runnable. -/
theorem Moves.used_kept (used : (state.proc np).state = .used) :
    (table np).state = .used ∨ (state.proc p).pc = .forkReady np ∧ (table p).pc.child = none := by
  have notSelf : np ≠ p := by
    intro equal
    rw [equal] at used
    rcases active with state | state | state <;> rw [used] at state <;> cases state
  cases moves with
  | goto | trace | print =>
    rw [update_of_ne notSelf]
    exact .inl used
  | exit user =>
    rw [update_of_ne notSelf, reparent]
    split <;> exact .inl used
  | @create np' unused | @createFail np' unused =>
    have different : np ≠ np' := by
      intro equal
      rw [← equal, used] at unused
      cases unused
    rw [withTwo, update_of_ne different, update_of_ne notSelf]
    exact .inl used
  | @forkParent np' here =>
    left
    apply withTwo_cases fun r after => r = np → after.state = .used
    · exact fun equal => absurd equal.symm notSelf
    · exact fun equal => equal ▸ used
    · exact fun r equal => equal ▸ used
    · rfl
  | @forkReady np' here =>
    by_cases same : np = np'
    · right
      refine ⟨same ▸ here, ?_⟩
      rw [withTwo, ← same, update_of_ne (Ne.symm notSelf), update_self]
      rfl
    · rw [withTwo, update_of_ne same, update_of_ne notSelf]
      exact .inl used
  | @reap slot zombie here =>
    have different : np ≠ slot := by
      intro equal
      rw [← equal, used] at zombie
      cases zombie
    rw [withTwo, update_of_ne different, update_of_ne notSelf]
    exact .inl used
  | @kill pid slot here found =>
    left
    rw [update_of_ne notSelf]
    apply update_cases fun r after => r = np → after.state = .used
    · intro equal
      rw [killProc, equal, used]
      rfl
    · exact fun r _ equal => equal ▸ used
    · rfl

end

theorem Stepped.child_before (active : state.Active p) (stepped : Stepped state p action next event)
    (child : (next.proc q).pc.child = some np) :
    (state.proc q).pc.child = some np ∨
      q = p ∧ (state.proc np).state = .unused ∧ (next.proc np).state = .used := by
  by_cases self : q = p
  · subst self
    rcases stepped.moves.child_self active child with before | filled
    · exact .inl before
    · exact .inr ⟨rfl, filled⟩
  · exact .inl (stepped.moves.child_of_ne self child)

theorem Stepped.ok (ok : Ok state) (active : state.Active p)
    (stepped : Stepped state p action next event) : Ok next := by
  have slots := stepped.moves.slotStep ok active
  constructor
  case embryo =>
    intro q np child
    rcases stepped.child_before active child with before | ⟨_, _, used⟩
    · rcases stepped.moves.used_kept active (ok.embryo q np before) with used | ⟨here, none⟩
      · exact used
      · have self : q = p := ok.children q p np before (by rw [here]; rfl)
        rw [self, none] at child
        cases child
    · exact used
  case children =>
    intro q r np first second
    rcases stepped.child_before active first with before | ⟨self, unused, _⟩
    · rcases stepped.child_before active second with before' | ⟨_, unused, _⟩
      · exact ok.children q r np before before'
      · rw [ok.embryo q np before] at unused
        cases unused
    · rcases stepped.child_before active second with before' | ⟨self', _, _⟩
      · rw [ok.embryo r np before'] at unused
        cases unused
      · rw [self, self']
  case numbers =>
    intro q live
    have grows : state.created ≤ next.created := by
      rw [stepped.created]
      exact Nat.le_add_right _ _
    rcases (slots q).live_before live with ⟨before, number⟩ | ⟨number, creates, _⟩
    · rw [number]
      exact Nat.lt_of_lt_of_le (ok.numbers q before) grows
    · rw [number, stepped.created, creates]
      exact Nat.lt_succ_self _
  case distinct =>
    intro q r live live' same
    rcases (slots q).live_before live with ⟨before, number⟩ | ⟨number, creates, unused⟩
    · rcases (slots r).live_before live' with ⟨before', number'⟩ | ⟨number', _, _⟩
      · exact ok.distinct q r before before' (number ▸ number' ▸ same)
      · have bound := ok.numbers q before
        omega
    · rcases (slots r).live_before live' with ⟨before', number'⟩ | ⟨number', _, unused'⟩
      · have bound := ok.numbers r before'
        omega
      · exact stepped.moves.newborn active creates (not_not.mp unused) live (not_not.mp unused') live'

theorem ok_boot : Ok boot := by
  have first : ∀ q, boot.Live q → q = initproc := by
    intro q live
    by_contra other
    exact live (by simp [boot, other])
  have noChild : ∀ q, (boot.proc q).pc.child = none := by
    intro q
    simp only [boot]
    split <;> rfl
  constructor
  case embryo =>
    intro p np child
    rw [noChild] at child
    cases child
  case children =>
    intro p q np child
    rw [noChild] at child
    cases child
  case numbers =>
    intro q live
    rw [first q live]
    decide
  case distinct =>
    intro p q live live' _
    rw [first p live, first q live']

end Xv6.Syscalls
