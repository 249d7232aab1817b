import Xv6.Foundation.Fifo
import Xv6.Virtio.Chains
import Mathlib.Data.List.Perm.Subperm

/-! # The rings

Every published request is in exactly one place until the interrupt handler has
seen its completion: in the `avail` ring, with the device, or in the used ring. -/

namespace Xv6.Virtio

open State
open Function (update update_self update_of_ne)

/-- How far a formatted request is. -/
inductive Stage where
  | ring
  | publish
  | waiting
  deriving DecidableEq

/-- The stage of the request of a thread, until its completion is seen. -/
def Pc.stage : Pc → Option (Stage × Request × Chain)
  | .ring req idx => some (.ring, req, idx)
  | .publish req idx => some (.publish, req, idx)
  | .wait req idx | .reacquire req idx => some (.waiting, req, idx)
  | _ => none

theorem Pc.formatted_of_stage {pc : Pc} {stage : Stage} {req : Request} {idx : Chain}
    (found : pc.stage = some (stage, req, idx)) : pc.Formatted req idx := by
  cases pc <;> simp only [Pc.stage] at found <;> cases found <;> exact ⟨rfl, rfl, rfl⟩

/-- `avail` and `used` are the heads in the two rings that the other side has not
seen yet. -/
structure Queues (state : State) (avail used : List Nat) : Prop where
  availRing : Fifo num (2 ^ 16) state.disk.avail.ring state.device.seen.toNat
    state.disk.avail.idx.toNat avail
  usedRing : Fifo num (2 ^ 16) state.disk.used.ring state.disk.usedIdx.toNat
    state.disk.used.idx.toNat used
  distinct : (avail ++ state.device.inflight ++ used).Nodup
  waits : ∀ h ∈ avail ++ state.device.inflight ++ used, ∃ p req idx,
    (state.proc p).pc.stage = some (.waiting, req, idx) ∧ idx.head = h
  busy : ∀ p req idx, (state.proc p).pc.stage = some (.waiting, req, idx) →
    (state.bdisk req.b = true ↔ idx.head ∈ avail ++ state.device.inflight ++ used)
  raised : ∀ p stage req idx, (state.proc p).pc.stage = some (stage, req, idx) →
    stage ≠ .waiting → state.bdisk req.b = true
  written : ∀ p req idx, (state.proc p).pc.stage = some (.publish, req, idx) →
    state.disk.avail.ring (state.disk.avail.idx.toNat % num) = idx.head
  status : ∀ h ∈ used, (state.disk.info h).status = 0

section Queues

variable {state after : State} {avail used : List Nat} {p : Nat} {pc : Pc}

theorem num_dvd : num ∣ 2 ^ 16 := ⟨2 ^ 13, rfl⟩

theorem toNat_add_one (counter : UInt16) :
    (counter + 1).toNat = (counter.toNat + 1) % 2 ^ 16 := by
  rw [UInt16.toNat_add]
  rfl

variable {h : Nat}

theorem Queues.waiter (queues : Queues state avail used) (chains : Chains state)
    (member : h ∈ avail ++ state.device.inflight ++ used) :
    ∃ p req idx, (state.proc p).pc.stage = some (.waiting, req, idx) ∧ idx.head = h ∧
      Linked state req idx := by
  rcases queues.waits h member with ⟨p, req, idx, waiting, equal⟩
  exact ⟨p, req, idx, waiting, equal, chains.linked p req idx (Pc.formatted_of_stage waiting)⟩

variable {idx : Chain} {q : Nat}

theorem Chains.same_head (chains : Chains state) (mine : (state.proc p).pc.chain = some idx)
    (theirs : (state.proc q).pc.chain = some other) (equal : idx.head = other.head) : p = q :=
  chains.disjoint p q idx other idx.head mine theirs (by simp [Chain.toList])
    (by simp [Chain.toList, equal])

theorem Queues.not_queued (queues : Queues state avail used) (chains : Chains state)
    (mine : (state.proc p).pc.chain = some idx)
    (elsewhere : ∀ req other, (state.proc p).pc.stage ≠ some (.waiting, req, other)) :
    idx.head ∉ avail ++ state.device.inflight ++ used := by
  intro member
  rcases queues.waits idx.head member with ⟨q, req, other, waiting, equal⟩
  have same := chains.same_head mine (Pc.formatted_of_stage waiting).chain equal.symm
  rw [← same] at waiting
  exact elsewhere req other waiting

theorem Queues.head_lt (queues : Queues state avail used) (chains : Chains state)
    (member : h ∈ avail ++ state.device.inflight ++ used) : h < num := by
  rcases queues.waiter chains member with ⟨q, req, idx, waiting, rfl, _⟩
  exact (chains.valid q idx (Pc.formatted_of_stage waiting).chain).2 idx.head
    (by simp [Chain.toList])

theorem length_le_num {heads : List Nat} (distinct : heads.Nodup)
    (bounded : ∀ h ∈ heads, h < num) : heads.length ≤ num := by
  have inside : heads ⊆ List.range num := fun h member => List.mem_range.mpr (bounded h member)
  have short := (distinct.subperm inside).length_le
  rw [List.length_range] at short
  exact short

variable {req : Request}

theorem Threads.publisher (threads : Threads state) (lock : state.lock = some p)
    (found : (state.proc q).pc.stage = some (.publish, req, idx)) : q = p := by
  have holds : (state.proc q).pc.holds = true := by
    cases place : (state.proc q).pc <;> rw [place] at found <;> first | rfl | cases found
  have theirs := threads.mine rfl holds
  rw [lock] at theirs
  exact (Option.some.inj theirs).symm

section

variable (queues : Queues state avail used)

include queues

theorem Queues.space (chains : Chains state) (mine : (state.proc p).pc.chain = some idx)
    (elsewhere : ∀ req other, (state.proc p).pc.stage ≠ some (.waiting, req, other)) :
    avail.length < num := by
  have fresh := queues.not_queued chains mine elsewhere
  have bound : idx.head < num := (chains.valid p idx mine).2 idx.head (by simp [Chain.toList])
  have short := length_le_num (List.nodup_cons.mpr ⟨fresh, queues.distinct⟩) (by
    intro h member
    rcases List.mem_cons.mp member with equal | queued
    · rw [equal]
      exact bound
    · exact queues.head_lt chains queued)
  simp only [List.length_cons, List.length_append] at short
  omega

theorem Queues.usedSpace (chains : Chains state) (member : h ∈ state.device.inflight) :
    used.length < num := by
  have short := length_le_num queues.distinct fun h => queues.head_lt chains
  have positive := List.length_pos_of_mem member
  simp only [List.length_append] at short
  omega

theorem Queues.keep (availRing : after.disk.avail = state.disk.avail)
    (usedRing : after.disk.used = state.disk.used)
    (usedIdx : after.disk.usedIdx = state.disk.usedIdx) (device : after.device = state.device)
    (bdisk : after.bdisk = state.bdisk)
    (status : ∀ h, (after.disk.info h).status = (state.disk.info h).status)
    (stage : ∀ q, (after.proc q).pc.stage = (state.proc q).pc.stage) : Queues after avail used where
  availRing := by
    rw [availRing, device]
    exact queues.availRing
  usedRing := by
    rw [usedRing, usedIdx]
    exact queues.usedRing
  distinct := by
    rw [device]
    exact queues.distinct
  waits := by
    simp only [device, stage]
    exact queues.waits
  busy := by
    simp only [device, stage, bdisk]
    exact queues.busy
  raised := by
    simp only [stage, bdisk]
    exact queues.raised
  written := by
    simp only [stage, availRing]
    exact queues.written
  status := by
    simp only [status]
    exact queues.status

omit queues in
theorem At.stage (moved : At state after p pc) (same : pc.stage = (state.proc p).pc.stage)
    (q : Nat) : (after.proc q).pc.stage = (state.proc q).pc.stage := by
  by_cases equal : q = p
  · rw [equal, moved.self, same]
  · rw [moved.rest q equal]

omit queues in
theorem At.stage_cases (moved : At state after p pc) (now : (after.proc q).pc.stage = some found) :
    (q = p ∧ pc.stage = some found) ∨ (q ≠ p ∧ (state.proc q).pc.stage = some found) := by
  by_cases same : q = p
  · rw [same, moved.self] at now
    exact .inl ⟨same, now⟩
  · rw [moved.rest q same] at now
    exact .inr ⟨same, now⟩

omit queues in
theorem Queues.format (queues : Queues state avail used) (threads : Threads state)
    (chains : Chains state) {req : Request} {idx : Chain}
    (atPc : (state.proc p).pc = .format req idx) :
    Queues ((formatChain state req idx).setPc p (.ring req idx)) avail used := by
  have moved : At state ((formatChain state req idx).setPc p (.ring req idx)) p (.ring req idx) :=
    .of_setPc rfl
  have mine : (state.proc p).pc.chain = some idx := by rw [atPc]; rfl
  have request : (state.proc p).pc.request = some req := by rw [atPc]; rfl
  have fresh := queues.not_queued chains mine (by rw [atPc]; exact nofun)
  -- the other threads work on other buffers
  have bdisk : ∀ {q stage other chain}, q ≠ p →
      (state.proc q).pc.stage = some (stage, other, chain) →
      update state.bdisk req.b true other.b = state.bdisk other.b := by
    intro q stage other chain different found
    refine update_of_ne (fun equal => different ?_) ..
    exact threads.same_buffer (Pc.formatted_of_stage found).request request equal
  constructor
  · exact queues.availRing
  · exact queues.usedRing
  · exact queues.distinct
  · intro h member
    rcases queues.waits h member with ⟨q, other, chain, waiting, equal⟩
    refine ⟨q, other, chain, ?_, equal⟩
    rw [moved.rest q, waiting]
    intro same
    rw [same, atPc] at waiting
    cases waiting
  · intro q other chain waiting
    rcases moved.stage_cases waiting with ⟨_, found⟩ | ⟨different, found⟩
    · cases found
    · refine Iff.trans ?_ (queues.busy q other chain found)
      rw [← bdisk different found]
      rfl
  · intro q stage other chain now early
    rcases moved.stage_cases now with ⟨_, found⟩ | ⟨different, found⟩
    · cases found
      exact update_self ..
    · exact (bdisk different found).trans (queues.raised q stage other chain found early)
  · intro q other chain now
    rcases moved.stage_cases now with ⟨_, found⟩ | ⟨_, found⟩
    · cases found
    · exact queues.written q other chain found
  · intro h member
    have different : h ≠ idx.head := by
      intro equal
      rw [equal] at member
      exact fresh (List.mem_append_right _ member)
    have unchanged : update state.disk.info idx.head
        { b := some req.b, status := 255 } h = state.disk.info h :=
      update_of_ne different ..
    exact (congrArg Info.status unchanged).trans (queues.status h member)

theorem Queues.ring (threads : Threads state) (chains : Chains state)
    (atPc : (state.proc p).pc = .ring req idx) :
    Queues ((writeRing state idx.head).setPc p (.publish req idx)) avail used := by
  have moved : At state ((writeRing state idx.head).setPc p (.publish req idx)) p
      (.publish req idx) := .of_setPc rfl
  have mine : (state.proc p).pc.chain = some idx := by rw [atPc]; rfl
  have space := queues.space chains mine (by rw [atPc]; exact nofun)
  have raised : state.bdisk req.b = true :=
    queues.raised p .ring req idx (by rw [atPc]; rfl) nofun
  constructor
  · exact queues.availRing.write num_dvd space idx.head
  · exact queues.usedRing
  · exact queues.distinct
  · intro h member
    rcases queues.waits h member with ⟨q, other, chain, waiting, equal⟩
    refine ⟨q, other, chain, ?_, equal⟩
    rw [moved.rest q, waiting]
    intro same
    rw [same, atPc] at waiting
    cases waiting
  · intro q other chain waiting
    rcases moved.stage_cases waiting with ⟨_, found⟩ | ⟨_, found⟩
    · cases found
    · exact queues.busy q other chain found
  · intro q stage other chain now early
    rcases moved.stage_cases now with ⟨_, found⟩ | ⟨_, found⟩
    · cases found
      exact raised
    · exact queues.raised q stage other chain found early
  · intro q other chain now
    rcases moved.stage_cases now with ⟨_, found⟩ | ⟨different, found⟩
    · cases found
      exact update_self ..
    · exact absurd (threads.publisher (threads.mine atPc rfl) found) different
  · exact queues.status

theorem Queues.publish (threads : Threads state) (chains : Chains state)
    (atPc : (state.proc p).pc = .publish req idx) :
    Queues (((bumpAvail state).setPc p (.wait req idx)).record (.published req))
      (avail ++ [idx.head]) used := by
  have moved : At state (((bumpAvail state).setPc p (.wait req idx)).record (.published req)) p
      (.wait req idx) := .of_setPc rfl
  have mine : (state.proc p).pc.chain = some idx := by rw [atPc]; rfl
  have stage : (state.proc p).pc.stage = some (.publish, req, idx) := by rw [atPc]; rfl
  have elsewhere : ∀ other chain, (state.proc p).pc.stage ≠ some (.waiting, other, chain) := by
    rw [atPc]
    exact nofun
  have space := queues.space chains mine elsewhere
  have fresh := queues.not_queued chains mine elsewhere
  have member : ∀ h, h ∈ avail ++ [idx.head] ++ state.device.inflight ++ used ↔
      h = idx.head ∨ h ∈ avail ++ state.device.inflight ++ used := by
    intro h
    simp only [List.mem_append, List.mem_singleton]
    tauto
  constructor
  · have pushed := queues.availRing.push space (queues.written p req idx stage)
    rw [← toNat_add_one] at pushed
    exact pushed
  · exact queues.usedRing
  · have distinct : (idx.head :: (avail ++ state.device.inflight ++ used)).Nodup :=
      List.nodup_cons.mpr ⟨fresh, queues.distinct⟩
    refine (List.Perm.nodup_iff ?_).mp distinct
    simp only [List.append_assoc, List.singleton_append]
    exact List.perm_middle.symm
  · intro h queued
    rcases (member h).mp queued with equal | before
    · exact ⟨p, req, idx, by rw [moved.self]; rfl, equal.symm⟩
    · rcases queues.waits h before with ⟨q, other, chain, waiting, same⟩
      refine ⟨q, other, chain, ?_, same⟩
      rw [moved.rest q, waiting]
      intro equal
      rw [equal] at waiting
      exact elsewhere other chain waiting
  · intro q other chain waiting
    refine Iff.trans ?_ (member chain.head).symm
    rcases moved.stage_cases waiting with ⟨_, found⟩ | ⟨different, found⟩
    · cases found
      exact iff_of_true (queues.raised p .publish req idx stage nofun) (.inl rfl)
    · have notMine : chain.head ≠ idx.head := fun equal => different
        (chains.same_head (Pc.formatted_of_stage found).chain mine equal)
      refine (queues.busy q other chain found).trans ?_
      simp only [notMine, false_or]
  · intro q stage' other chain now early
    rcases moved.stage_cases now with ⟨_, found⟩ | ⟨_, found⟩
    · cases found
      exact absurd rfl early
    · exact queues.raised q stage' other chain found early
  · intro q other chain now
    rcases moved.stage_cases now with ⟨_, found⟩ | ⟨different, found⟩
    · cases found
    · exact absurd (threads.publisher (threads.mine atPc rfl) found) different
  · exact queues.status

theorem Queues.usedEntry (chains : Chains state) (more : state.disk.usedIdx ≠ state.disk.used.idx) :
    ∃ p req idx rest, used = idx.head :: rest ∧
      state.disk.used.ring (state.disk.usedIdx.toNat % num) = idx.head ∧
      (state.proc p).pc.stage = some (.waiting, req, idx) ∧ Linked state req idx := by
  cases used with
  | nil =>
    have equal := (queues.usedRing.empty_iff (by decide)).mpr rfl
    exact absurd (UInt16.toNat_inj.mp equal) more
  | cons head rest =>
    rcases queues.waiter chains (List.mem_append_right _ List.mem_cons_self) with
      ⟨p, req, idx, waiting, rfl, linked⟩
    exact ⟨p, req, idx, rest, rfl, queues.usedRing.take.1, waiting, linked⟩

end

theorem Queues.intrEntry {req : Request} {idx : Chain} {rest : List Nat}
    (queues : Queues state avail (idx.head :: rest)) (threads : Threads state)
    (chains : Chains state) (waiting : (state.proc p).pc.stage = some (.waiting, req, idx))
    (disk : after.disk = { state.disk with usedIdx := state.disk.usedIdx + 1 })
    (bdisk : after.bdisk = update state.bdisk req.b false)
    (device : after.device = state.device)
    (pcs : ∀ q, (after.proc q).pc = (state.proc q).pc) : Queues after avail rest := by
  have distinct := queues.distinct
  rw [List.perm_middle.nodup_iff, List.nodup_cons] at distinct
  have member : ∀ h, h ∈ avail ++ state.device.inflight ++ idx.head :: rest ↔
      h = idx.head ∨ h ∈ avail ++ state.device.inflight ++ rest := by
    intro h
    simp only [List.mem_append, List.mem_cons]
    tauto
  have mine := Pc.formatted_of_stage waiting
  have other : ∀ {q stage found chain}, q ≠ p →
      (state.proc q).pc.stage = some (stage, found, chain) →
      after.bdisk found.b = state.bdisk found.b := by
    intro q stage found chain different theirs
    rw [bdisk]
    refine update_of_ne (fun equal => different ?_) ..
    exact threads.same_buffer (Pc.formatted_of_stage theirs).request mine.request equal
  constructor
  · rw [disk, device]
    exact queues.availRing
  · have taken := queues.usedRing.take.2
    rw [← toNat_add_one] at taken
    rw [disk]
    exact taken
  · rw [device]
    exact distinct.2
  · intro h queued
    rw [device] at queued
    simp only [pcs]
    exact queues.waits h ((member h).mpr (.inr queued))
  · intro q found chain theirs
    rw [pcs] at theirs
    rw [device]
    by_cases same : q = p
    · rw [same, waiting] at theirs
      cases theirs
      rw [bdisk, update_self]
      exact iff_of_false nofun distinct.1
    · have notMine : chain.head ≠ idx.head := fun equal => same
        (chains.same_head (Pc.formatted_of_stage theirs).chain mine.chain equal)
      rw [other same theirs, queues.busy q found chain theirs, member]
      simp only [notMine, false_or]
  · intro q stage found chain theirs early
    rw [pcs] at theirs
    have different : q ≠ p := by
      intro same
      rw [same, waiting] at theirs
      cases theirs
      exact early rfl
    rw [other different theirs]
    exact queues.raised q stage found chain theirs early
  · intro q found chain theirs
    rw [pcs] at theirs
    rw [disk]
    exact queues.written q found chain theirs
  · intro h queued
    rw [disk]
    exact queues.status h (List.mem_cons_of_mem _ queued)

theorem Queues.take {head : Nat} {rest : List Nat} (queues : Queues state (head :: rest) used) :
    Queues (taken state head) rest used := by
  have moved : (head :: rest ++ state.device.inflight ++ used).Perm
      (rest ++ (state.device.inflight ++ [head]) ++ used) := by
    have front : (head :: rest ++ state.device.inflight).Perm
        (rest ++ (state.device.inflight ++ [head])) := by
      rw [← List.append_assoc, List.cons_append]
      exact (List.perm_append_singleton head _).symm
    exact front.append_right used
  constructor
  · have taken := queues.availRing.take.2
    rw [← toNat_add_one] at taken
    exact taken
  · exact queues.usedRing
  · exact moved.nodup_iff.mp queues.distinct
  · exact fun h member => queues.waits h (moved.mem_iff.mpr member)
  · intro q req idx waiting
    exact (queues.busy q req idx waiting).trans moved.mem_iff
  · exact queues.raised
  · exact queues.written
  · exact queues.status

theorem Queues.complete (queues : Queues state avail used) (chains : Chains state) {head : Nat}
    (member : head ∈ state.device.inflight) :
    Queues (completed state head) avail (used ++ [head]) := by
  have moved : (avail ++ state.device.inflight ++ used).Perm
      (avail ++ state.device.inflight.erase head ++ (used ++ [head])) := by
    have erased : (avail ++ state.device.inflight ++ used).Perm
        (avail ++ head :: state.device.inflight.erase head ++ used) :=
      ((List.perm_cons_erase member).append_left avail).append_right used
    have front : (avail ++ head :: state.device.inflight.erase head ++ used).Perm
        (head :: (avail ++ state.device.inflight.erase head ++ used)) :=
      List.perm_middle.append_right used
    rw [← List.append_assoc]
    exact (erased.trans front).trans (List.perm_append_singleton head _).symm
  rcases queues.waiter chains (List.mem_append_left _ (List.mem_append_right _ member)) with
    ⟨p, req, idx, waiting, rfl, linked⟩
  have info : writeStatus state idx.head =
      update state.disk.info idx.head { state.disk.info idx.head with status := 0 } := by
    simp only [writeStatus, linked.data, linked.status, linked.addr]
  constructor
  · exact queues.availRing
  · have put := queues.usedRing.put num_dvd (queues.usedSpace chains member) idx.head
    rw [← toNat_add_one] at put
    exact put
  · exact moved.nodup_iff.mp queues.distinct
  · exact fun h queued => queues.waits h (moved.mem_iff.mpr queued)
  · intro q other chain theirs
    exact (queues.busy q other chain theirs).trans moved.mem_iff
  · exact queues.raised
  · exact queues.written
  · intro h queued
    have equal : ((completed state idx.head).disk.info h) =
        update state.disk.info idx.head
          { state.disk.info idx.head with status := 0 } h := congrFun info h
    rw [equal]
    by_cases same : h = idx.head
    · rw [same, update_self]
    · rw [update_of_ne same]
      rcases List.mem_append.mp queued with before | last
      · exact queues.status h before
      · exact absurd (List.mem_singleton.mp last) same

theorem Queues.waitDone (queues : Queues state avail used)
    (waiting : (state.proc p).pc.stage = some (.waiting, req, idx))
    (done : state.bdisk req.b = false) (gone : pc.stage = none) :
    Queues (state.setPc p pc) avail used := by
  have moved : At state (state.setPc p pc) p pc := .of_setPc rfl
  have before : ∀ {q found}, ((state.setPc p pc).proc q).pc.stage = some found →
      (state.proc q).pc.stage = some found := by
    intro q found now
    rcases moved.stage_cases now with ⟨_, here⟩ | ⟨_, there⟩
    · rw [gone] at here
      cases here
    · exact there
  constructor
  · exact queues.availRing
  · exact queues.usedRing
  · exact queues.distinct
  · intro h member
    rcases queues.waits h member with ⟨q, other, chain, theirs, equal⟩
    refine ⟨q, other, chain, ?_, equal⟩
    rw [moved.rest q, theirs]
    intro same
    rw [same, waiting] at theirs
    cases theirs
    have raised := (queues.busy p req idx waiting).mpr (equal ▸ member)
    rw [done] at raised
    cases raised
  · exact fun q other chain now => queues.busy q other chain (before now)
  · exact fun q stage other chain now => queues.raised q stage other chain (before now)
  · exact fun q other chain now => queues.written q other chain (before now)
  · exact queues.status

theorem boot_queues : Queues boot [] [] where
  availRing := .nil (by decide)
  usedRing := .nil (by decide)
  distinct := List.nodup_nil
  waits _ := nofun
  busy _ _ _ := nofun
  raised _ _ _ _ := nofun
  written _ _ _ := nofun
  status _ := nofun

end Queues

end Xv6.Virtio
