import Xv6.Foundation.History
import Xv6.Virtio.Queues

/-! # The history of a request

A request is published, taken and completed by the device, its buffer is cleared
by the interrupt handler, and its call returns, each once and in this order. -/

namespace Xv6.Virtio

open State
open Function (update update_self update_of_ne)

def Event.number : Event → Option Nat
  | .published req | .taken req | .completed req | .cleared req _ | .returned req =>
    some req.number

/-- The last event about a request. -/
def lastEvent (number : Nat) (history : List Event) : Option Event :=
  lastAbout Event.number number history

/-- The event may come next. -/
def Event.Follows (history : List Event) : Event → Prop
  | .published req => lastEvent req.number history = none
  | .taken req => lastEvent req.number history = some (.published req)
  | .completed req => lastEvent req.number history = some (.taken req)
  | .cleared req b => lastEvent req.number history = some (.completed req) ∧ b = some req.b
  | .returned req => lastEvent req.number history = some (.cleared req (some req.b))

/-- The request of a thread that is not yet in the `avail` ring. -/
def Pc.early : Pc → Option Request
  | .acquire req | .alloc req | .format req _ | .ring req _ | .publish req _ => some req
  | _ => none

/-- The thread can stop, or has stopped, waiting for the device. -/
def Done (state : State) (p : Nat) (req : Request) (idx : Chain) : Prop :=
  ((state.proc p).pc.stage = some (.waiting, req, idx) ∧ state.bdisk req.b = false) ∨
    (state.proc p).pc = .finish req idx

/-- The last event about each request says where the request is. -/
structure Recorded (state : State) (avail used : List Nat) : Prop where
  ordered : Ordered Event.Follows state.history
  fresh : ∀ n, state.calls ≤ n → lastEvent n state.history = none
  early : ∀ p req, (state.proc p).pc.early = some req → lastEvent req.number state.history = none
  published : ∀ h ∈ avail, lastEvent (state.request h).number state.history =
    some (.published (state.request h))
  taken : ∀ h ∈ state.device.inflight, lastEvent (state.request h).number state.history =
    some (.taken (state.request h))
  completed : ∀ h ∈ used, lastEvent (state.request h).number state.history =
    some (.completed (state.request h))
  cleared : ∀ p req idx, Done state p req idx →
    lastEvent req.number state.history = some (.cleared req (some req.b))
  seen : ∀ req, lastEvent req.number state.history = some (.completed req) →
    ∃ h ∈ used, state.request h = req

variable {history : List Event} {n : Nat} {req : Request}

section Steps

variable {state after : State} {avail used : List Nat} {p : Nat} {pc : Pc}

theorem lastEvent_self {event : Event} (about : event.number = some number) :
    lastEvent number (event :: history) = some event :=
  lastAbout_cons_self Event.number about

theorem lastEvent_other {event : Event} (other : event.number ≠ some number) :
    lastEvent number (event :: history) = lastEvent number history :=
  lastAbout_cons_of_ne other

variable {h : Nat}

section

variable (queues : Queues state avail used) (threads : Threads state) (chains : Chains state)

include queues threads chains

theorem Queues.number_injective (first : h ∈ avail ++ state.device.inflight ++ used)
    (second : other ∈ avail ++ state.device.inflight ++ used)
    (equal : (state.request h).number = (state.request other).number) : h = other := by
  rcases queues.waiter chains first with ⟨q, req, idx, waiting, rfl, linked⟩
  rcases queues.waiter chains second with ⟨r, req', idx', waiting', rfl, linked'⟩
  rw [linked.request, linked'.request] at equal
  have same := threads.distinct q r req req' (Pc.formatted_of_stage waiting).request
    (Pc.formatted_of_stage waiting').request equal
  rw [same, waiting'] at waiting
  cases waiting
  rfl

theorem Queues.number_lt (queued : h ∈ avail ++ state.device.inflight ++ used) :
    (state.request h).number < state.calls := by
  rcases queues.waiter chains queued with ⟨p, req, idx, waiting, rfl, linked⟩
  rw [linked.request]
  exact threads.number p req (Pc.formatted_of_stage waiting).request

/-- A thread whose request has the number of a chain in the queues waits for
it. -/
theorem Queues.waiter_eq (queued : h ∈ avail ++ state.device.inflight ++ used)
    (requests : (state.proc q).pc.request = some req)
    (equal : (state.request h).number = req.number) :
    ∃ idx, (state.proc q).pc.stage = some (.waiting, req, idx) ∧ idx.head = h := by
  rcases queues.waiter chains queued with ⟨r, other, idx, waiting, head, linked⟩
  rw [← head, linked.request] at equal
  have same := threads.distinct r q other req (Pc.formatted_of_stage waiting).request requests equal
  rw [same] at waiting
  have both := (Pc.formatted_of_stage waiting).request
  rw [requests] at both
  cases both
  exact ⟨idx, waiting, head⟩

end

theorem Pc.request_of_early (early : pc.early = some req) : pc.request = some req := by
  cases pc <;> first | exact early | cases early

variable {idx : Chain}

theorem Done.request (done : Done state p req idx) : (state.proc p).pc.request = some req := by
  rcases done with ⟨waiting, _⟩ | finish
  · exact (Pc.formatted_of_stage waiting).request
  · rw [finish]
    rfl

section Others

variable {h : Nat} {req : Request}

section

variable (queues : Queues state avail used) (threads : Threads state) (chains : Chains state)

include queues threads chains

/-- Nothing in the queues has the number of a request that does not wait for the
device. -/
theorem Queues.other_number (requests : (state.proc p).pc.request = some req)
    (elsewhere : ∀ other idx, (state.proc p).pc.stage ≠ some (.waiting, other, idx))
    (queued : h ∈ avail ++ state.device.inflight ++ used) :
    (state.request h).number ≠ req.number := by
  intro equal
  rcases queues.waiter_eq threads chains queued requests equal with ⟨idx, waiting, _⟩
  exact elsewhere req idx waiting

theorem Queues.early_other (queued : h ∈ avail ++ state.device.inflight ++ used)
    (early : (state.proc p).pc.early = some req) : req.number ≠ (state.request h).number := by
  refine (queues.other_number threads chains (Pc.request_of_early early) ?_ queued).symm
  intro other idx waiting
  cases place : (state.proc p).pc <;> rw [place] at early waiting <;> cases early <;> cases waiting

theorem Queues.done_other (queued : h ∈ avail ++ state.device.inflight ++ used)
    (done : Done state p req idx) : req.number ≠ (state.request h).number := by
  intro equal
  rcases queues.waiter_eq threads chains queued done.request equal.symm with
    ⟨chain, waiting, rfl⟩
  have busy := (queues.busy p req chain waiting).mpr queued
  rcases done with ⟨_, clear⟩ | finish
  · rw [clear] at busy
    cases busy
  · rw [finish] at waiting
    cases waiting

end

end Others

section

variable (recorded : Recorded state avail used)

include recorded

theorem Recorded.keep (history : after.history = state.history) (calls : state.calls ≤ after.calls)
    (device : after.device = state.device)
    (request : ∀ h ∈ avail ++ state.device.inflight ++ used, after.request h = state.request h)
    (early : ∀ q req, (after.proc q).pc.early = some req →
      (state.proc q).pc.early = some req ∨ state.calls ≤ req.number)
    (done : ∀ q req idx, Done after q req idx → Done state q req idx) : Recorded after avail used where
  ordered := history ▸ recorded.ordered
  fresh n bound := by
    rw [history]
    exact recorded.fresh n (Nat.le_trans calls bound)
  early q req now := by
    rw [history]
    rcases early q req now with before | new
    · exact recorded.early q req before
    · exact recorded.fresh _ new
  published h member := by
    rw [history, request h (List.mem_append_left _ (List.mem_append_left _ member))]
    exact recorded.published h member
  taken h member := by
    rw [device] at member
    rw [history, request h (List.mem_append_left _ (List.mem_append_right _ member))]
    exact recorded.taken h member
  completed h member := by
    rw [history, request h (List.mem_append_right _ member)]
    exact recorded.completed h member
  cleared q req idx now := by
    rw [history]
    exact recorded.cleared q req idx (done q req idx now)
  seen req last := by
    rw [history] at last
    rcases recorded.seen req last with ⟨h, member, equal⟩
    exact ⟨h, member, (request h (List.mem_append_right _ member)).trans equal⟩

theorem Recorded.quiet (pcs : ∀ q, (after.proc q).pc = (state.proc q).pc)
    (history : after.history = state.history) (calls : after.calls = state.calls)
    (device : after.device = state.device) (request : after.request = state.request)
    (bdisk : after.bdisk = state.bdisk) : Recorded after avail used := by
  refine recorded.keep history (Nat.le_of_eq calls.symm) device
    (fun h _ => congrFun request h) ?_ ?_
  · intro q req now
    rw [pcs] at now
    exact .inl now
  · intro q req idx now
    rw [Done, pcs, bdisk] at now
    exact now

theorem Recorded.goto (moved : At state after p pc) (history : after.history = state.history)
    (calls : state.calls ≤ after.calls) (device : after.device = state.device)
    (request : ∀ h ∈ avail ++ state.device.inflight ++ used, after.request h = state.request h)
    (bdisk : ∀ b, after.bdisk b = false → state.bdisk b = false)
    (early : ∀ req, pc.early = some req →
      (state.proc p).pc.early = some req ∨ state.calls ≤ req.number)
    (waiting : ∀ req idx, pc.stage = some (.waiting, req, idx) →
      (state.proc p).pc.stage = some (.waiting, req, idx))
    (finish : ∀ req idx, pc = .finish req idx → Done state p req idx) :
    Recorded after avail used := by
  refine recorded.keep history calls device request ?_ ?_
  · intro q req now
    by_cases same : q = p
    · rw [same, moved.self] at now
      rw [same]
      exact early req now
    · rw [moved.rest q same] at now
      exact .inl now
  · intro q req idx now
    by_cases same : q = p
    · rw [same, Done, moved.self] at now
      rw [same]
      rcases now with ⟨found, clear⟩ | found
      · exact .inl ⟨waiting req idx found, bdisk _ clear⟩
      · exact finish req idx found
    · rw [Done, moved.rest q same] at now
      exact now.imp_left fun found => ⟨found.1, bdisk _ found.2⟩

omit recorded in
/-- A step that records the event `event` about the request with number `n`. The
lists are what the step makes of the queues. -/
theorem Recorded.event (recorded : Recorded state avail used) {event : Event}
    {availAfter usedAfter : List Nat} (history : after.history = event :: state.history)
    (about : event.number = some n) (follows : event.Follows state.history)
    (calls : after.calls = state.calls) (bound : n < state.calls)
    (request : after.request = state.request)
    (early : ∀ q req, (after.proc q).pc.early = some req →
      req.number ≠ n ∧ (state.proc q).pc.early = some req)
    (published : ∀ h ∈ availAfter, ((state.request h).number ≠ n ∧ h ∈ avail) ∨
      event = .published (state.request h))
    (taken : ∀ h ∈ after.device.inflight,
      ((state.request h).number ≠ n ∧ h ∈ state.device.inflight) ∨ event = .taken (state.request h))
    (completed : ∀ h ∈ usedAfter, ((state.request h).number ≠ n ∧ h ∈ used) ∨
      event = .completed (state.request h))
    (cleared : ∀ q req idx, Done after q req idx →
      (req.number ≠ n ∧ Done state q req idx) ∨ event = .cleared req (some req.b))
    (seen : ∀ req, event = .completed req → ∃ h ∈ usedAfter, state.request h = req)
    (stays : ∀ h ∈ used, (state.request h).number ≠ n → h ∈ usedAfter) :
    Recorded after availAfter usedAfter := by
  have self : ∀ {found}, event = found → ∀ {m}, found.number = some m →
      lastEvent m after.history = some found := by
    intro found equal m number
    rw [history, equal]
    exact lastEvent_self number
  have other : ∀ {m}, m ≠ n → lastEvent m after.history = lastEvent m state.history := by
    intro m different
    rw [history]
    apply lastEvent_other
    rw [about]
    exact fun equal => different (Option.some.inj equal).symm
  constructor
  · rw [history]
    exact ⟨follows, recorded.ordered⟩
  · intro m large
    rw [calls] at large
    rw [other (by omega)]
    exact recorded.fresh m large
  · intro q req now
    rcases early q req now with ⟨different, before⟩
    rw [other different]
    exact recorded.early q req before
  · intro h member
    rw [request]
    rcases published h member with ⟨different, before⟩ | equal
    · rw [other different]
      exact recorded.published h before
    · exact self equal rfl
  · intro h member
    rw [request]
    rcases taken h member with ⟨different, before⟩ | equal
    · rw [other different]
      exact recorded.taken h before
    · exact self equal rfl
  · intro h member
    rw [request]
    rcases completed h member with ⟨different, before⟩ | equal
    · rw [other different]
      exact recorded.completed h before
    · exact self equal rfl
  · intro q req idx done
    rcases cleared q req idx done with ⟨different, before⟩ | equal
    · rw [other different]
      exact recorded.cleared q req idx before
    · exact self equal rfl
  · intro req last
    rw [request]
    by_cases same : req.number = n
    · rw [history, lastEvent_self (about.trans (congrArg some same.symm))] at last
      exact seen req (Option.some.inj last)
    · rw [other same] at last
      rcases recorded.seen req last with ⟨h, member, equal⟩
      exact ⟨h, stays h member (by rw [equal]; exact same), equal⟩

theorem Recorded.publish (queues : Queues state avail used) (threads : Threads state)
    (chains : Chains state) (atPc : (state.proc p).pc = .publish req idx) :
    Recorded (((bumpAvail state).setPc p (.wait req idx)).record (.published req))
      (avail ++ [idx.head]) used := by
  have moved : At state (((bumpAvail state).setPc p (.wait req idx)).record (.published req)) p
      (.wait req idx) := .of_setPc rfl
  have requests : (state.proc p).pc.request = some req := by rw [atPc]; rfl
  have stage : (state.proc p).pc.stage = some (.publish, req, idx) := by rw [atPc]; rfl
  have linked := chains.linked p req idx (Pc.formatted_of_stage stage)
  have others : ∀ {h}, h ∈ avail ++ state.device.inflight ++ used →
      (state.request h).number ≠ req.number :=
    queues.other_number threads chains requests (by rw [atPc]; exact nofun)
  have raised := queues.raised p .publish req idx stage nofun
  have different : ∀ {q other}, q ≠ p → (state.proc q).pc.request = some other →
      other.number ≠ req.number := fun apart theirs equal =>
    apart (threads.distinct _ p _ req theirs requests equal)
  refine recorded.event rfl rfl ?_ rfl (threads.number p req requests) rfl ?_ ?_ ?_ ?_ ?_ nofun
    (fun _ member _ => member)
  · exact recorded.early p req (by rw [atPc]; rfl)
  · intro q other early
    by_cases same : q = p
    · rw [same, moved.self] at early
      cases early
    · rw [moved.rest q same] at early
      exact ⟨different same (Pc.request_of_early early), early⟩
  · intro h member
    rcases List.mem_append.mp member with before | last
    · exact .inl ⟨others (List.mem_append_left _ (List.mem_append_left _ before)), before⟩
    · rw [List.mem_singleton.mp last, linked.request]
      exact .inr rfl
  · exact fun h member =>
      .inl ⟨others (List.mem_append_left _ (List.mem_append_right _ member)), member⟩
  · exact fun h member => .inl ⟨others (List.mem_append_right _ member), member⟩
  · intro q other chain done
    by_cases same : q = p
    · rw [same, Done, moved.self] at done
      rcases done with ⟨waiting, clear⟩ | finish
      · cases waiting
        rw [show state.bdisk req.b = false from clear] at raised
        cases raised
      · cases finish
    · rw [Done, moved.rest q same] at done
      have before : Done state q other chain := done
      exact .inl ⟨different same before.request, before⟩

end

theorem Recorded.take {head : Nat} {rest : List Nat}
    (recorded : Recorded state (head :: rest) used)
    (queues : Queues state (head :: rest) used) (threads : Threads state)
    (chains : Chains state) : Recorded (Virtio.taken state head) rest used := by
  have queued : head ∈ head :: rest ++ state.device.inflight ++ used := by simp
  have distinct : head ∉ rest ++ state.device.inflight ++ used :=
    (List.nodup_cons.mp queues.distinct).1
  have others : ∀ {h}, h ∈ rest ++ state.device.inflight ++ used →
      (state.request h).number ≠ (state.request head).number := by
    intro h member equal
    have same := queues.number_injective threads chains (List.mem_cons_of_mem _ member) queued equal
    exact distinct (same ▸ member)
  refine recorded.event rfl rfl ?_ rfl (queues.number_lt threads chains queued) rfl ?_ ?_ ?_ ?_
    ?_ nofun (fun _ member _ => member)
  · exact recorded.published head List.mem_cons_self
  · exact fun q other early => ⟨queues.early_other threads chains queued early, early⟩
  · exact fun h member => .inl ⟨others (List.mem_append_left _ (List.mem_append_left _ member)),
      List.mem_cons_of_mem _ member⟩
  · intro h member
    rcases List.mem_append.mp member with before | last
    · exact .inl ⟨others (List.mem_append_left _ (List.mem_append_right _ before)), before⟩
    · rw [List.mem_singleton.mp last]
      exact .inr rfl
  · exact fun h member => .inl ⟨others (List.mem_append_right _ member), member⟩
  · exact fun q other chain done =>
      .inl ⟨queues.done_other threads chains queued done, done⟩

theorem Recorded.complete {head : Nat} (recorded : Recorded state avail used)
    (queues : Queues state avail used) (threads : Threads state) (chains : Chains state)
    (member : head ∈ state.device.inflight) :
    Recorded (Virtio.completed state head) avail (used ++ [head]) := by
  have queued : head ∈ avail ++ state.device.inflight ++ used :=
    List.mem_append_left _ (List.mem_append_right _ member)
  rcases List.nodup_append.mp queues.distinct with ⟨front, _, frontUsed⟩
  rcases List.nodup_append.mp front with ⟨_, inflight, availInflight⟩
  have others : ∀ {h}, h ∈ avail ++ state.device.inflight ++ used → h ≠ head →
      (state.request h).number ≠ (state.request head).number := fun inside different equal =>
    different (queues.number_injective threads chains inside queued equal)
  refine recorded.event rfl rfl ?_ rfl (queues.number_lt threads chains queued) rfl ?_ ?_ ?_ ?_
    ?_ ?_ (fun _ inside _ => List.mem_append_left _ inside)
  · exact recorded.taken head member
  · exact fun q other early => ⟨queues.early_other threads chains queued early, early⟩
  · intro h inside
    have different : h ≠ head := availInflight h inside head member
    exact .inl ⟨others (List.mem_append_left _ (List.mem_append_left _ inside)) different, inside⟩
  · intro h inside
    rcases inflight.mem_erase_iff.mp inside with ⟨different, before⟩
    exact .inl ⟨others (List.mem_append_left _ (List.mem_append_right _ before)) different, before⟩
  · intro h inside
    rcases List.mem_append.mp inside with before | last
    · have different : h ≠ head :=
        (frontUsed head (List.mem_append_right _ member) h before).symm
      exact .inl ⟨others (List.mem_append_right _ before) different, before⟩
    · rw [List.mem_singleton.mp last]
      exact .inr rfl
  · exact fun q other chain done =>
      .inl ⟨queues.done_other threads chains queued done, done⟩
  · intro req equal
    cases equal
    exact ⟨head, List.mem_append_right _ List.mem_cons_self, rfl⟩

theorem Recorded.intrEntry {req : Request} {idx : Chain} {rest : List Nat}
    (recorded : Recorded state avail (idx.head :: rest))
    (queues : Queues state avail (idx.head :: rest)) (threads : Threads state)
    (chains : Chains state) (waiting : (state.proc p).pc.stage = some (.waiting, req, idx))
    (linked : Linked state req idx)
    (history : after.history = .cleared req (some req.b) :: state.history)
    (bdisk : after.bdisk = update state.bdisk req.b false)
    (device : after.device = state.device) (calls : after.calls = state.calls)
    (request : after.request = state.request)
    (pcs : ∀ q, (after.proc q).pc = (state.proc q).pc) : Recorded after avail rest := by
  have mine := (Pc.formatted_of_stage waiting).request
  have queued : idx.head ∈ avail ++ state.device.inflight ++ idx.head :: rest :=
    List.mem_append_right _ List.mem_cons_self
  have distinct := queues.distinct
  rw [List.perm_middle.nodup_iff, List.nodup_cons] at distinct
  have others : ∀ {h}, h ∈ avail ++ state.device.inflight ++ rest →
      (state.request h).number ≠ req.number := by
    intro h member equal
    rw [← linked.request] at equal
    have inside : h ∈ avail ++ state.device.inflight ++ idx.head :: rest := by
      rw [List.perm_middle.mem_iff]
      exact List.mem_cons_of_mem _ member
    have same := queues.number_injective threads chains inside queued equal
    exact distinct.1 (same ▸ member)
  refine recorded.event history rfl ?_ calls (threads.number p req mine) request ?_ ?_ ?_ ?_ ?_
    nofun ?_
  · have completed := recorded.completed idx.head List.mem_cons_self
    rw [linked.request] at completed
    exact ⟨completed, rfl⟩
  · intro q other early
    rw [pcs] at early
    refine ⟨?_, early⟩
    rw [← linked.request]
    exact queues.early_other threads chains queued early
  · exact fun h member =>
      .inl ⟨others (List.mem_append_left _ (List.mem_append_left _ member)), member⟩
  · intro h member
    rw [device] at member
    exact .inl ⟨others (List.mem_append_left _ (List.mem_append_right _ member)), member⟩
  · exact fun h member =>
      .inl ⟨others (List.mem_append_right _ member), List.mem_cons_of_mem _ member⟩
  · intro q other chain done
    rw [Done, pcs, bdisk] at done
    by_cases same : q = p
    · -- the thread that waits for this completion
      right
      rw [same] at done
      rcases done with ⟨theirs, _⟩ | finish
      · rw [waiting] at theirs
        cases theirs
        rfl
      · rw [finish] at waiting
        cases waiting
    · left
      have theirs : (state.proc q).pc.request = some other := by
        rcases done with ⟨found, _⟩ | finish
        · exact (Pc.formatted_of_stage found).request
        · rw [finish]
          rfl
      refine ⟨fun equal => same (threads.distinct q p other req theirs mine equal), ?_⟩
      have apart : other.b ≠ req.b := fun equal =>
        same (threads.same_buffer theirs mine equal)
      rw [update_of_ne apart] at done
      exact done
  · intro h member different
    rcases List.mem_cons.mp member with equal | inside
    · rw [equal, linked.request] at different
      exact absurd rfl different
    · exact inside

theorem Recorded.finish (recorded : Recorded state avail used)
    (queues : Queues state avail used) (threads : Threads state) (chains : Chains state)
    {req : Request} {idx : Chain} (atPc : (state.proc p).pc = .finish req idx)
    (moved : At state after p .idle) (history : after.history = .returned req :: state.history)
    (bdisk : after.bdisk = state.bdisk) (device : after.device = state.device)
    (calls : after.calls = state.calls) (request : after.request = state.request) :
    Recorded after avail used := by
  have mine : (state.proc p).pc.request = some req := by rw [atPc]; rfl
  have others : ∀ {h}, h ∈ avail ++ state.device.inflight ++ used →
      (state.request h).number ≠ req.number :=
    queues.other_number threads chains mine (by rw [atPc]; exact nofun)
  have different : ∀ {q other}, q ≠ p → (state.proc q).pc.request = some other →
      other.number ≠ req.number := fun apart theirs equal =>
    apart (threads.distinct _ p _ req theirs mine equal)
  refine recorded.event history rfl ?_ calls (threads.number p req mine) request ?_ ?_ ?_ ?_ ?_
    nofun (fun _ member _ => member)
  · exact recorded.cleared p req idx (.inr atPc)
  · intro q other early
    by_cases same : q = p
    · rw [same, moved.self] at early
      cases early
    · rw [moved.rest q same] at early
      exact ⟨different same (Pc.request_of_early early), early⟩
  · exact fun h member =>
      .inl ⟨others (List.mem_append_left _ (List.mem_append_left _ member)), member⟩
  · intro h member
    rw [device] at member
    exact .inl ⟨others (List.mem_append_left _ (List.mem_append_right _ member)), member⟩
  · exact fun h member => .inl ⟨others (List.mem_append_right _ member), member⟩
  · intro q other chain done
    by_cases same : q = p
    · rw [same, Done, moved.self] at done
      rcases done with ⟨waiting, _⟩ | finish
      · cases waiting
      · cases finish
    · rw [Done, moved.rest q same, bdisk] at done
      have before : Done state q other chain := done
      exact .inl ⟨different same before.request, before⟩

theorem Moves.recorded (moves : Moves state after) (threads : Threads state)
    (chains : Chains state) (queues : Queues state avail used)
    (recorded : Recorded state avail used) :
    ∃ availAfter usedAfter, Queues after availAfter usedAfter ∧
      Recorded after availAfter usedAfter := by
  cases moves with
  | lockBuf | unlockBuf =>
    exact ⟨avail, used, queues.keep rfl rfl rfl rfl rfl (fun _ => rfl) (fun _ => rfl),
      recorded.quiet (fun _ => rfl) rfl rfl rfl rfl rfl⟩
  | @kill p =>
    exact ⟨avail, used, queues.keep rfl rfl rfl rfl rfl (fun _ => rfl)
        (fun q => congrArg Pc.stage (kill_pc state p q)),
      recorded.quiet (kill_pc state p) rfl rfl rfl rfl rfl⟩
  | rw idle =>
    refine ⟨avail, used, queues.keep rfl rfl rfl rfl rfl (fun _ => rfl)
        (At.stage (.of_update rfl) (by rw [idle]; rfl)),
      recorded.goto (.of_update rfl) rfl (Nat.le_succ _) rfl (fun _ _ => rfl)
        (fun _ clear => clear) ?_ (fun _ _ => nofun) (fun _ _ => nofun)⟩
    intro req early
    cases early
    exact .inr (Nat.le_refl _)
  | interrupt atPc | intrAcquire atPc | intrReturn atPc =>
    exact ⟨avail, used, queues.keep rfl rfl rfl rfl rfl (fun _ => rfl)
        (At.stage (.of_update rfl) (by rw [atPc]; rfl)),
      recorded.goto (.of_update rfl) rfl (Nat.le_refl _) rfl (fun _ _ => rfl)
        (fun _ clear => clear) (fun _ => nofun) (fun _ _ => nofun) (fun _ _ => nofun)⟩
  | acquire atPc =>
    exact ⟨avail, used, queues.keep rfl rfl rfl rfl rfl (fun _ => rfl)
        (At.stage (.of_update rfl) (by rw [atPc]; rfl)),
      recorded.goto (.of_update rfl) rfl (Nat.le_refl _) rfl (fun _ _ => rfl)
        (fun _ clear => clear) (fun _ early => .inl (by rw [atPc]; exact early))
        (fun _ _ => nofun) (fun _ _ => nofun)⟩
  | allocate atPc allocated =>
    cases allocated
    exact ⟨avail, used, queues.keep rfl rfl rfl rfl rfl (fun _ => rfl)
        (At.stage (.of_update rfl) (by rw [atPc]; rfl)),
      recorded.goto (.of_update rfl) rfl (Nat.le_refl _) rfl (fun _ _ => rfl)
        (fun _ clear => clear) (fun _ early => .inl (by rw [atPc]; exact early))
        (fun _ _ => nofun) (fun _ _ => nofun)⟩
  | allocFail atPc allocated =>
    cases allocated with
    | failed same =>
      exact ⟨avail, used, queues.keep same.avail same.used same.usedIdx same.device same.bdisk
          (fun h => congrArg Info.status (congrFun same.info h))
          (At.stage (.trans same.pc (.of_update rfl)) (by rw [atPc]; rfl)),
        recorded.goto (.trans same.pc (.of_update rfl)) same.history
          (Nat.le_of_eq same.calls.symm) same.device
          (fun h _ => congrFun same.request h) (fun b clear => same.bdisk ▸ clear)
          (fun _ early => .inl (by rw [atPc]; exact early)) (fun _ _ => nofun) (fun _ _ => nofun)⟩
  | @format p req idx atPc =>
    have mine : (state.proc p).pc.chain = some idx := by rw [atPc]; rfl
    have fresh := queues.not_queued chains mine (by rw [atPc]; exact nofun)
    refine ⟨avail, used, queues.format threads chains atPc,
      recorded.goto (.of_update rfl) rfl (Nat.le_refl _) rfl ?_ ?_
        (fun _ early => .inl (by rw [atPc]; exact early)) (fun _ _ => nofun) (fun _ _ => nofun)⟩
    · intro h member
      refine update_of_ne (fun equal => fresh ?_) ..
      exact equal ▸ member
    · intro b clear
      by_cases same : b = req.b
      · subst same
        have raised : update state.bdisk req.b true req.b = true :=
          update_self ..
        exact nomatch raised.symm.trans clear
      · rw [← update_of_ne same true state.bdisk]
        exact clear
  | ring atPc =>
    exact ⟨avail, used, queues.ring threads chains atPc,
      recorded.goto (.of_update rfl) rfl (Nat.le_refl _) rfl (fun _ _ => rfl)
        (fun _ clear => clear) (fun _ early => .inl (by rw [atPc]; exact early))
        (fun _ _ => nofun) (fun _ _ => nofun)⟩
  | publish atPc =>
    exact ⟨_, used, queues.publish threads chains atPc, recorded.publish queues threads chains atPc⟩
  | waitSleep atPc | reacquire atPc =>
    exact ⟨avail, used, queues.keep rfl rfl rfl rfl rfl (fun _ => rfl)
        (At.stage (.of_update rfl) (by rw [atPc]; rfl)),
      recorded.goto (.of_update rfl) rfl (Nat.le_refl _) rfl (fun _ _ => rfl)
        (fun _ clear => clear) (fun _ => nofun) (fun _ _ found => by rw [atPc]; exact found)
        (fun _ _ => nofun)⟩
  | waitDone atPc done =>
    have waiting := congrArg Pc.stage atPc
    refine ⟨avail, used, queues.waitDone waiting done rfl,
      recorded.goto (.of_update rfl) rfl (Nat.le_refl _) rfl (fun _ _ => rfl)
        (fun _ clear => clear) (fun _ => nofun) (fun _ _ => nofun) ?_⟩
    intro req idx found
    cases found
    exact .inl ⟨waiting, done⟩
  | @finish p req idx middle atPc freed =>
    rw [chains.freeChain_eq atPc] at freed
    cases freed
    have same : Same (forget state idx.head) _ := releaseAll_same _ idx.toList
    refine ⟨avail, used, queues.keep same.avail same.used same.usedIdx same.device same.bdisk
        (fun h => ?_) (At.stage (.trans same.pc (.of_setPc rfl)) (by rw [atPc]; rfl)),
      recorded.finish queues threads chains atPc (.trans same.pc (.of_setPc rfl))
        (congrArg (_ :: ·) same.history) same.bdisk same.device same.calls same.request⟩
    refine (congrArg Info.status (congrFun same.info h)).trans ?_
    by_cases equal : h = idx.head
    · subst equal
      simp [forget, setDisk]
    · simp [forget, setDisk, equal]
  | @intrEntry id more entry =>
    rcases queues.usedEntry chains more with ⟨p, req, idx, rest, rfl, found, waiting, linked⟩
    rw [entry] at found
    subst found
    rcases clearBuf_fields state (state.disk.info idx.head).b with
      ⟨disk, _, _, device, calls, request, history, pcs⟩
    have bdisk : (clearBuf state (state.disk.info idx.head).b).bdisk =
        update state.bdisk req.b false := by
      rw [linked.b]
      rfl
    refine ⟨avail, rest, queues.intrEntry threads chains waiting ?_ bdisk device pcs,
      recorded.intrEntry queues threads chains waiting linked ?_ bdisk device calls request pcs⟩
    · exact congrArg (fun disk : Disk => { disk with usedIdx := disk.usedIdx + 1 }) disk
    · rw [← history, ← linked.b]
      exact congrArg (fun r => Event.cleared r _ :: _) linked.request
  | @take head more entry =>
    cases avail with
    | nil =>
      have equal := (queues.availRing.empty_iff (by decide)).mpr rfl
      exact absurd (UInt16.toNat_inj.mp equal) more
    | cons first rest =>
      have front := queues.availRing.take.1
      rw [entry] at front
      subst front
      exact ⟨rest, used, queues.take, recorded.take queues threads chains⟩
  | complete member =>
    exact ⟨avail, _, queues.complete chains member, recorded.complete queues threads chains member⟩

theorem boot_recorded : Recorded boot [] [] where
  ordered := trivial
  fresh _ _ := rfl
  early _ _ := nofun
  published _ := nofun
  taken _ := nofun
  completed _ := nofun
  cleared _ _ _ done := by
    rcases done with ⟨waiting, _⟩ | finish
    · cases waiting
    · cases finish
  seen _ := nofun

end Steps

/-! ## Orders -/

/-- How far the request is after the event. -/
def Event.rank : Event → Nat
  | .published _ => 0
  | .taken _ => 1
  | .completed _ => 2
  | .cleared _ _ => 3
  | .returned _ => 4

theorem Event.rank_lt_of_follows {event last : Event} (about : event.number = some n)
    (follows : event.Follows history) (found : lastEvent n history = some last) :
    last.rank < event.rank := by
  cases event with
  | published req =>
    cases about
    cases found.symm.trans follows
  | taken req | completed req | returned req =>
    cases about
    cases found.symm.trans follows
    exact Nat.lt_succ_self _
  | cleared req b =>
    cases about
    cases found.symm.trans follows.1
    exact Nat.lt_succ_self _

theorem rank_le_last (ordered : Ordered Event.Follows history) (member : event ∈ history)
    (about : event.number = some n) :
    ∃ last, lastEvent n history = some last ∧ event.rank ≤ last.rank := by
  induction history with
  | nil => cases member
  | cons newest history induction =>
    by_cases same : newest.number = some n
    · refine ⟨newest, lastEvent_self same, ?_⟩
      rcases List.mem_cons.mp member with equal | earlier
      · rw [equal]
      · rcases induction ordered.2 earlier with ⟨last, found, bound⟩
        exact Nat.le_trans bound (Nat.le_of_lt (newest.rank_lt_of_follows same ordered.1 found))
    · rcases List.mem_cons.mp member with equal | earlier
      · rw [equal] at about
        exact absurd about same
      · rw [lastEvent_other same]
        exact induction ordered.2 earlier

theorem mem_of_lastEvent (found : lastEvent n history = some event) : event ∈ history :=
  List.mem_of_find?_eq_some found

variable {earlier later : List Event}

theorem cleared_once (ordered : Ordered Event.Follows history)
    (split : history = later ++ .cleared req b :: earlier) (member : .cleared other c ∈ earlier) :
    other.number ≠ req.number := by
  intro equal
  have follows := ordered.follows_of_split split
  rcases rank_le_last (ordered.before_of_split split) member (congrArg some equal) with
    ⟨last, found, bound⟩
  rw [follows.1] at found
  cases found
  exact absurd bound (Nat.not_succ_le_self _)

theorem completed_of_returned (ordered : Ordered Event.Follows history)
    (split : history = later ++ .returned req :: earlier) : .completed req ∈ earlier := by
  have cleared := ordered.follows_of_split split
  have before := ordered.before_of_split split
  rcases lastAbout_eq_some_iff.mp cleared with ⟨_, between, rest, equal, _⟩
  have completed := (before.follows_of_split equal).1
  rw [equal]
  exact List.mem_append_right _ (List.mem_cons_of_mem _ (mem_of_lastEvent completed))

end Xv6.Virtio
