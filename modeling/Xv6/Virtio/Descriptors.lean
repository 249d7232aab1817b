import Xv6.Virtio.Machine
import Mathlib.Data.List.Nodup

/-! # Allocating and freeing descriptors -/

namespace Xv6.Virtio

open State
open Function (update update_self update_of_ne)

/-- The states differ at most in descriptors and in who is asleep. -/
structure Same (state after : State) : Prop where
  avail : after.disk.avail = state.disk.avail
  used : after.disk.used = state.disk.used
  usedIdx : after.disk.usedIdx = state.disk.usedIdx
  info : after.disk.info = state.disk.info
  bdisk : after.bdisk = state.bdisk
  buflock : after.buflock = state.buflock
  lock : after.lock = state.lock
  pc : ∀ p, (after.proc p).pc = (state.proc p).pc
  device : after.device = state.device
  calls : after.calls = state.calls
  request : after.request = state.request
  history : after.history = state.history

theorem Same.trans (same : Same first second) (further : Same second third) : Same first third where
  avail := further.avail.trans same.avail
  used := further.used.trans same.used
  usedIdx := further.usedIdx.trans same.usedIdx
  info := further.info.trans same.info
  bdisk := further.bdisk.trans same.bdisk
  buflock := further.buflock.trans same.buflock
  lock := further.lock.trans same.lock
  pc p := (further.pc p).trans (same.pc p)
  device := further.device.trans same.device
  calls := further.calls.trans same.calls
  request := further.request.trans same.request
  history := further.history.trans same.history

section

variable (state : State)

include state

theorem setDisk_same (desc : Nat → VirtqDesc) (free : Nat → Bool) :
    Same state (state.setDisk { state.disk with desc := desc, free := free }) := by
  constructor <;> intros <;> rfl

theorem wakeup_pc (chan : Chan) (p : Nat) :
    ((state.wakeup chan).proc p).pc = (state.proc p).pc := by
  simp only [wakeup]
  split <;> rfl

theorem wakeup_same (chan : Chan) : Same state (state.wakeup chan) := by
  constructor
  case pc => exact wakeup_pc state chan
  all_goals rfl

theorem release_same (i : Nat) : Same state (state.release i) :=
  (setDisk_same ..).trans (wakeup_same ..)

@[simp] theorem release_free (i : Nat) :
    (state.release i).disk.free = update state.disk.free i true := rfl

@[simp] theorem release_desc (i : Nat) :
    (state.release i).disk.desc =
      update state.disk.desc i { addr := .null, len := 0, flags := 0, next := 0 } := rfl

end

theorem freeDesc_eq_next {state : State} (inside : i < num) (busy : state.disk.free i = false) :
    freeDesc state i = .next (state.release i) := by
  rw [freeDesc, if_neg (Nat.not_le.mpr inside), busy]
  rfl

variable {disk : Disk}

theorem allocDescFrom_eq_some (equal : disk.allocDescFrom fuel i = some found) :
    found < i + fuel ∧ disk.free found = true := by
  induction fuel generalizing i with
  | zero => cases equal
  | succ fuel induction =>
    simp only [Disk.allocDescFrom] at equal
    split at equal
    · rename_i free
      cases equal
      exact ⟨by omega, free⟩
    · rcases induction equal with ⟨bound, free⟩
      exact ⟨by omega, free⟩

theorem allocDesc_eq_some (equal : disk.allocDesc = some (i, after)) :
    i < num ∧ disk.free i = true ∧ after = { disk with free := update disk.free i false } := by
  rw [Disk.allocDesc, Option.map_eq_some_iff] at equal
  rcases equal with ⟨found, search, pair⟩
  cases pair
  rcases allocDescFrom_eq_some search with ⟨bound, free⟩
  exact ⟨by omega, free, rfl⟩

/-- Give several descriptors back. -/
def State.releaseAll (state : State) (got : List Nat) : State := got.foldl State.release state

section ReleaseAll

variable (state : State) (got : List Nat)

theorem releaseAll_same : Same state (state.releaseAll got) := by
  induction got generalizing state with
  | nil => exact setDisk_same state state.disk.desc state.disk.free
  | cons i got induction => exact (release_same state i).trans (induction (state.release i))

theorem releaseAll_free (i : Nat) :
    (state.releaseAll got).disk.free i = true ↔ i ∈ got ∨ state.disk.free i = true := by
  induction got generalizing state with
  | nil => simp [releaseAll]
  | cons first got induction =>
    have rest := induction (state.release first)
    rw [releaseAll] at rest
    rw [releaseAll, List.foldl_cons, rest, release_free, List.mem_cons]
    by_cases same : i = first
    · simp [same]
    · simp [same]

theorem releaseAll_desc (other : i ∉ got) :
    (state.releaseAll got).disk.desc i = state.disk.desc i := by
  induction got generalizing state with
  | nil => rfl
  | cons first got induction =>
    rw [List.mem_cons, not_or] at other
    have rest := induction (state.release first) other.2
    rw [releaseAll] at rest
    rw [releaseAll, List.foldl_cons, rest, release_desc, update_of_ne other.1]

end ReleaseAll

variable {got : List Nat}

theorem freeDescs_eq_next {state : State} (distinct : got.Nodup)
    (busy : ∀ i ∈ got, i < num ∧ state.disk.free i = false) :
    freeDescs state got = .next (state.releaseAll got) := by
  induction got generalizing state with
  | nil => rfl
  | cons first got induction =>
    rw [List.nodup_cons] at distinct
    rcases busy first List.mem_cons_self with ⟨inside, taken⟩
    rw [freeDescs, freeDesc_eq_next inside taken]
    apply induction distinct.2
    intro i member
    rcases busy i (List.mem_cons_of_mem _ member) with ⟨bound, still⟩
    refine ⟨bound, ?_⟩
    rw [release_free, update_of_ne]
    · exact still
    · intro equal
      exact distinct.1 (equal ▸ member)

theorem freeChain_eq_next {state : State} {idx : Chain} (distinct : idx.toList.Nodup)
    (busy : ∀ i ∈ idx.toList, i < num ∧ state.disk.free i = false)
    (first : (state.disk.desc idx.head).flags &&& flagNext ≠ 0)
    (data : (state.disk.desc idx.head).next = idx.data)
    (second : (state.disk.desc idx.data).flags &&& flagNext ≠ 0)
    (status : (state.disk.desc idx.data).next = idx.status)
    (last : (state.disk.desc idx.status).flags &&& flagNext = 0) :
    freeChain num state idx.head = .next (state.releaseAll idx.toList) := by
  simp only [Chain.toList, List.nodup_cons, List.mem_cons, List.not_mem_nil, or_false,
    not_or, List.nodup_nil, and_true, not_false_eq_true] at distinct
  have headBusy := busy idx.head (by simp [Chain.toList])
  have dataBusy := busy idx.data (by simp [Chain.toList])
  have statusBusy := busy idx.status (by simp [Chain.toList])
  have dataStill : (state.release idx.head).disk.free idx.data = false := by
    rw [release_free, update_of_ne (Ne.symm distinct.1.1)]
    exact dataBusy.2
  have statusStill : ((state.release idx.head).release idx.data).disk.free idx.status = false := by
    rw [release_free, update_of_ne (Ne.symm distinct.2), release_free,
      update_of_ne (Ne.symm distinct.1.2)]
    exact statusBusy.2
  have dataDesc : (state.release idx.head).disk.desc idx.data = state.disk.desc idx.data := by
    rw [release_desc, update_of_ne (Ne.symm distinct.1.1)]
  have statusDesc : ((state.release idx.head).release idx.data).disk.desc idx.status =
      state.disk.desc idx.status := by
    rw [release_desc, update_of_ne (Ne.symm distinct.2), release_desc,
      update_of_ne (Ne.symm distinct.1.2)]
  simp only [num, freeChain, freeDesc_eq_next headBusy.1 headBusy.2, if_pos first, data,
    freeDesc_eq_next dataBusy.1 dataStill, dataDesc, if_pos second, status,
    freeDesc_eq_next statusBusy.1 statusStill, statusDesc, last]
  rfl

/-- What `alloc3_desc` does: it gets three free descriptors, or nothing happens
but to descriptors that are free. -/
inductive Allocated (state : State) : State → Option Chain → Prop
  | three (idx : Chain) (distinct : idx.toList.Nodup)
      (available : ∀ i ∈ idx.toList, i < num ∧ state.disk.free i = true) :
      Allocated state (state.setDisk { state.disk with
        free := update (update (update state.disk.free
          idx.head false) idx.data false) idx.status false }) (some idx)
  | failed {after : State} (same : Same state after) (free : after.disk.free = state.disk.free)
      (desc : ∀ i, state.disk.free i = false → after.disk.desc i = state.disk.desc i) :
      Allocated state after none

variable {free : Nat → Bool}

theorem Allocated.giveBack {state : State} (was : ∀ i ∈ got, state.disk.free i = true)
    (rest : ∀ i, i ∉ got → free i = state.disk.free i) :
    Allocated state ((state.setDisk { state.disk with free := free }).releaseAll got) none := by
  refine .failed ((setDisk_same state state.disk.desc _).trans (releaseAll_same _ got)) ?_ ?_
  · funext i
    rw [Bool.eq_iff_iff, releaseAll_free]
    by_cases member : i ∈ got
    · exact iff_of_true (.inl member) (was i member)
    · simp only [member, false_or, setDisk]
      rw [rest i member]
  · intro i busy
    rw [releaseAll_desc]
    · rfl
    · intro member
      rw [was i member] at busy
      cases busy

theorem free_of_update (available : update free i false j = true) : j ≠ i ∧ free j = true := by
  have different : j ≠ i := by
    intro equal
    rw [equal, update_self] at available
    cases available
  rw [update_of_ne different] at available
  exact ⟨different, available⟩

theorem alloc3Desc_spec (state : State) :
    ∃ after idx, alloc3Desc state = .next (after, idx) ∧ Allocated state after idx := by
  rw [alloc3Desc]
  cases first : state.disk.allocDesc with
  | none =>
    have unchanged : Allocated state (state.releaseAll []) none :=
      .giveBack nofun fun _ _ => rfl
    exact ⟨state, none, rfl, unchanged⟩
  | some result =>
    rcases result with ⟨head, disk⟩
    rcases allocDesc_eq_some first with ⟨headInside, headFree, rfl⟩
    cases second : Disk.allocDesc { state.disk with
        free := update state.disk.free head false } with
    | none =>
      simp only [second]
      rw [freeDescs_eq_next (List.nodup_singleton head) (by simp [setDisk, headInside])]
      refine ⟨_, none, rfl, .giveBack (by simpa using headFree) fun i other => ?_⟩
      exact update_of_ne (by simpa using other) ..
    | some result =>
      rcases result with ⟨data, disk⟩
      rcases allocDesc_eq_some second with ⟨dataInside, dataFree, rfl⟩
      rcases free_of_update dataFree with ⟨dataNe, dataWas⟩
      simp only [second]
      cases third : Disk.allocDesc { state.disk with
          free := update (update state.disk.free head false) data false } with
      | none =>
        have distinct : [head, data].Nodup := by simpa using dataNe.symm
        simp only
        rw [freeDescs_eq_next distinct (by
          simp [setDisk, headInside, dataInside, update_of_ne dataNe.symm])]
        refine ⟨_, none, rfl, .giveBack (by simp [headFree, dataWas]) fun i other => ?_⟩
        simp only [List.mem_cons, List.not_mem_nil, or_false, not_or] at other
        rw [update_of_ne other.2, update_of_ne other.1]
      | some result =>
        rcases result with ⟨status, disk⟩
        rcases allocDesc_eq_some third with ⟨statusInside, statusFree, rfl⟩
        rcases free_of_update statusFree with ⟨statusNeData, statusMiddle⟩
        rcases free_of_update statusMiddle with ⟨statusNeHead, statusWas⟩
        simp only
        refine ⟨_, _, rfl, .three ⟨head, data, status⟩ ?_ ?_⟩
        · simp [Chain.toList, dataNe.symm, statusNeHead.symm, statusNeData.symm]
        · simp [Chain.toList, headInside, headFree, dataInside, dataWas, statusInside, statusWas]

end Xv6.Virtio
