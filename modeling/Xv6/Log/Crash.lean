import Xv6.Log.Script

/-! # Crash atomicity of the redo log

A crash keeps the disk as it is after some of the writes that were issued, and
loses everything else. Recovery may itself be cut short by further crashes. -/

namespace Xv6.Log

open Function (update update_self update_of_ne)

/-- The disk after a sequence of block writes. -/
def applyWrites (disk : Nat → Block) (writes : List (Nat × Block)) : Nat → Block :=
  writes.foldl (fun disk write => update disk write.1 write.2) disk

/-- The disk when the machine crashes after `count` of the writes it issues. -/
def crashAfter (disk : Nat → Block) (writes : List (Nat × Block)) (count : Nat) :
    Nat → Block :=
  applyWrites disk (writes.take count)

theorem applyWrites_append (disk : Nat → Block) (first second : List (Nat × Block)) :
    applyWrites disk (first ++ second) = applyWrites (applyWrites disk first) second :=
  List.foldl_append

variable {writes : List (Nat × Block)}

theorem applyWrites_of_not_mem (disk : Nat → Block) {blockno : Nat}
    (absent : ∀ write ∈ writes, write.1 ≠ blockno) :
    applyWrites disk writes blockno = disk blockno := by
  induction writes generalizing disk with
  | nil => rfl
  | cons write rest induction =>
    rw [applyWrites, List.foldl_cons]
    refine (induction _ fun other member =>
      absent other (List.mem_cons_of_mem _ member)).trans ?_
    exact update_of_ne (absent write List.mem_cons_self).symm _ _

/-- What each write of a list preserves, any number of its first writes
preserves. -/
theorem crashAfter_preserves {Property : (Nat → Block) → Prop}
    (preserved : ∀ write ∈ writes, ∀ disk, Property disk → Property (update disk write.1 write.2))
    {disk : Nat → Block} (holds : Property disk) (count : Nat) :
    Property (crashAfter disk writes count) := by
  unfold crashAfter
  induction writes generalizing disk count with
  | nil => simpa [applyWrites] using holds
  | cons write rest induction =>
    cases count with
    | zero => simpa [applyWrites] using holds
    | succ count =>
      rw [List.take_succ_cons, applyWrites, List.foldl_cons]
      exact induction (fun other member => preserved other (List.mem_cons_of_mem _ member))
        (preserved write List.mem_cons_self disk holds) count

/-! ## The writes of a commit and of a recovery -/

/-- The writes of `write_log` from `tail` on. -/
def logWrites (start : Nat) (contents : Nat → Block) :
    (tail : Nat) → List Nat → List (Nat × Block)
  | _, [] => []
  | tail, blockno :: rest =>
    (start + tail + 1, contents blockno) :: logWrites start contents (tail + 1) rest

/-- The writes of `install_trans`. -/
def homeWrites (contents : Nat → Block) (lh : List Nat) : List (Nat × Block) :=
  lh.map fun blockno => (blockno, contents blockno)

@[simp] theorem logWrites_length (start : Nat) (contents : Nat → Block) (tail : Nat)
    (lh : List Nat) : (logWrites start contents tail lh).length = lh.length := by
  induction lh generalizing tail with
  | nil => rfl
  | cons blockno rest induction => simp [logWrites, induction]

theorem mem_logWrites {start tail : Nat} {contents : Nat → Block} {lh : List Nat}
    {write : Nat × Block} (member : write ∈ logWrites start contents tail lh) :
    start + tail < write.1 ∧ write.1 ≤ start + tail + lh.length := by
  induction lh generalizing tail with
  | nil => cases member
  | cons blockno rest induction =>
    rw [List.length_cons]
    rcases List.mem_cons.mp member with rfl | member
    · exact ⟨by simp, by simp⟩
    · have := induction member
      omega

theorem applyWrites_logWrites (disk : Nat → Block) (start : Nat) (contents : Nat → Block)
    (tail : Nat) (lh : List Nat) {index : Nat} (bound : index < lh.length) :
    applyWrites disk (logWrites start contents tail lh) (start + tail + index + 1) =
      contents lh[index] := by
  induction lh generalizing disk tail index with
  | nil => cases bound
  | cons blockno rest induction =>
    rw [logWrites, applyWrites, List.foldl_cons]
    cases index with
    | zero =>
      refine (applyWrites_of_not_mem _ fun write member => ?_).trans ?_
      · have := mem_logWrites member
        omega
      · simp
    | succ index =>
      have later := induction (update disk (start + tail + 1) (contents blockno))
        (tail + 1) (by simpa using bound : index < rest.length)
      rw [show start + tail + (index + 1) + 1 = start + (tail + 1) + index + 1 by omega]
      exact later

section

variable (recycled : Nat → Bool)

include recycled

theorem writeLogFrom_spec (store : Store) (start tail : Nat) {lh : List Nat}
    {contents : Nat → Block}
    (cached : ∀ blockno ∈ lh, store.cache blockno = some (contents blockno))
    (pinned : ∀ blockno ∈ lh, store.pinned blockno = true)
    (outside : ∀ blockno ∈ lh, blockno < start ∨ start + tail + lh.length < blockno) : let after := execAll recycled store (writeLogFrom start tail lh)
    after.writes = store.writes ++ logWrites start contents tail lh ∧
      after.disk = applyWrites store.disk (logWrites start contents tail lh) ∧
      (∀ index (bound : index < lh.length),
        after.cache (start + tail + index + 1) = some (contents lh[index])) ∧
      ∀ other, other ≤ start + tail ∨ start + tail + lh.length < other →
        after.cache other = store.cache other := by
  induction lh generalizing store tail with
  | nil => simp [execAll, writeLogFrom, logWrites, applyWrites]
  | cons blockno rest induction =>
    have away := outside blockno List.mem_cons_self
    simp only [List.length_cons] at away ⊢
    rw [writeLogFrom, execAll_append,
      exec_writeLog_iteration recycled store (cached blockno List.mem_cons_self)
        (pinned blockno List.mem_cons_self) (by omega)]
    have later := induction
      { disk := update store.disk (start + tail + 1) (contents blockno)
        cache := update store.cache (start + tail + 1) (some (contents blockno))
        pinned := store.pinned, reads := store.reads + 2
        writes := store.writes ++ [(start + tail + 1, contents blockno)] }
      (tail + 1)
      (by
        intro other member
        have := outside other (List.mem_cons_of_mem _ member)
        simp only [List.length_cons] at this
        refine (update_of_ne (by omega) _ _).trans ?_
        exact cached other (List.mem_cons_of_mem _ member))
      (fun other member => pinned other (List.mem_cons_of_mem _ member))
      (by
        intro other member
        have := outside other (List.mem_cons_of_mem _ member)
        simp only [List.length_cons] at this
        omega)
    rcases later with ⟨writes, disk, logBlocks, others⟩
    refine ⟨?_, ?_, ?_, ?_⟩
    · rw [writes]
      simp [logWrites]
    · rw [disk]
      rfl
    · intro index bound
      cases index with
      | zero =>
        rw [others _ (.inl (by omega))]
        simp
      | succ index =>
        rw [show start + tail + (index + 1) + 1 = start + (tail + 1) + index + 1 by omega]
        exact logBlocks index (by omega)
    · intro other away
      refine (others other (by omega)).trans ?_
      exact update_of_ne (by omega) _ _

theorem writeHead_spec (store : Store) (start : Nat) (lh : List Nat) : ∃ block, let after := execAll recycled store (writeHead start lh)
      after.writes = store.writes ++ [(start, putHead block lh)] ∧
        after.disk = update store.disk start (putHead block lh) ∧
        ∀ other, other ≠ start → after.cache other = store.cache other := by
  refine ⟨if recycled store.reads && !store.pinned start then store.disk start
    else store.data start, ?_⟩
  simp +contextual [execAll, writeHead, exec, Store.data, update_of_ne]

/-- Installing reads each log block from its buffer or again from the disk; both
hold the same contents. -/
theorem installTransFrom_spec (recovering : Bool) (store : Store) (start tail : Nat) {lh : List Nat}
    {contents : Nat → Block}
    (cached : ∀ index (bound : index < lh.length),
      store.data (start + tail + index + 1) = contents lh[index])
    (logged : ∀ index (bound : index < lh.length),
      store.disk (start + tail + index + 1) = contents lh[index])
    (outside : ∀ blockno ∈ lh, blockno < start ∨ start + tail + lh.length < blockno) :
    (execAll recycled store (installTransFrom recovering start tail lh)).writes =
      store.writes ++ homeWrites contents lh := by
  induction lh generalizing store tail with
  | nil => simp [execAll, installTransFrom, homeWrites]
  | cons blockno rest induction =>
    have away := outside blockno List.mem_cons_self
    simp only [List.length_cons] at away
    have here := exec_install_iteration recycled recovering store
      (cached 0 (by simp)) (logged 0 (by simp)) (show blockno ≠ start + tail + 0 + 1 by omega)
    rw [installTransFrom, execAll_append]
    rcases here with ⟨disk, writes, others⟩
    simp only [List.getElem_cons_zero] at disk writes others
    have later : ∀ index, index < rest.length →
        start + (tail + 1) + index + 1 ≠ blockno ∧
          start + (tail + 1) + index + 1 ≠ start + tail + 1 := by
      intro index bound
      omega
    rw [induction]
    · rw [writes]
      simp [homeWrites]
    · intro index bound
      have := cached (index + 1) (by simpa using bound)
      rw [Store.data, disk, others _ (later index bound).1 (later index bound).2,
        update_of_ne (later index bound).1, ← Store.data]
      rw [show start + tail + (index + 1) + 1 = start + (tail + 1) + index + 1 by omega] at this
      exact this
    · intro index bound
      have := logged (index + 1) (by simpa using bound)
      rw [disk, update_of_ne (later index bound).1]
      rw [show start + tail + (index + 1) + 1 = start + (tail + 1) + index + 1 by omega] at this
      exact this
    · intro other member
      have := outside other (List.mem_cons_of_mem _ member)
      simp only [List.length_cons] at this
      omega

theorem commit_writes (store : Store) {start : Nat} {lh : List Nat} {contents : Nat → Block}
    (nonempty : 0 < lh.length)
    (cached : ∀ blockno ∈ lh, store.cache blockno = some (contents blockno))
    (pinned : ∀ blockno ∈ lh, store.pinned blockno = true)
    (outside : ∀ blockno ∈ lh, blockno < start ∨ start + lh.length < blockno) :
    ∃ first second, (execAll recycled store (commit start lh)).writes =
      store.writes ++ (logWrites start contents 0 lh ++ (start, putHead first lh) ::
        (homeWrites contents lh ++ [(start, putHead second [])])) := by
  have copied := writeLogFrom_spec recycled store start 0 cached pinned (by simpa using outside)
  rw [commit, if_pos nonempty]
  simp only [execAll_append]
  generalize logEq : execAll recycled store (writeLog start lh) = logStore
  rw [writeLog] at logEq
  rw [logEq] at copied
  rcases copied with ⟨logWritesEq, logDisk, logCache, _⟩
  rcases writeHead_spec recycled logStore start lh with ⟨first, headWrites, headDisk, headCache⟩
  generalize headEq : execAll recycled logStore (writeHead start lh) = headStore at *
  have inLog : ∀ index (bound : index < lh.length),
      headStore.cache (start + 0 + index + 1) = some (contents lh[index]) ∧
        headStore.disk (start + 0 + index + 1) = contents lh[index] := by
    intro index bound
    have different : start + 0 + index + 1 ≠ start := by omega
    rw [headCache _ different, headDisk, update_of_ne different, logDisk]
    exact ⟨logCache index bound, applyWrites_logWrites store.disk start contents 0 lh bound⟩
  have installed := installTransFrom_spec recycled false headStore start 0
    (fun index bound => by rw [Store.data, (inLog index bound).1]; rfl)
    (fun index bound => (inLog index bound).2) (by simpa using outside)
  generalize homeEq : execAll recycled headStore (installTrans false start lh) = homeStore
  rw [installTrans] at homeEq
  rw [homeEq] at installed
  rcases writeHead_spec recycled (execAll recycled homeStore [.clearHead]) start [] with
    ⟨second, eraseWrites, _⟩
  refine ⟨first, second, ?_⟩
  rw [eraseWrites]
  change homeStore.writes ++ _ = _
  rw [installed, headWrites, logWritesEq]
  simp

theorem recoverFromLog_writes {start : Nat} {disk : Nat → Block} {contents : Nat → Block}
    (logged : ∀ index (bound : index < (readHead (disk start)).length),
      disk (start + index + 1) = contents (readHead (disk start))[index])
    (outside : ∀ blockno ∈ readHead (disk start),
      blockno < start ∨ start + (readHead (disk start)).length < blockno) :
    ∃ block, (recoverFromLog recycled start disk).writes =
      homeWrites contents (readHead (disk start)) ++ [(start, putHead block [])] := by
  generalize readEq : execAll recycled (reboot disk) [.bread start, .brelse start] = store
  have head : store.data start = disk start := by
    subst readEq
    simp [execAll, exec, reboot, Store.data]
  have kept : store.disk = disk ∧ store.writes = [] ∧
      ∀ other, store.data other = disk other := by
    subst readEq
    refine ⟨rfl, rfl, fun other => ?_⟩
    by_cases same : other = start
    · subst other
      exact head
    · simp [execAll, exec, reboot, Store.data, update_of_ne same]
  rcases kept with ⟨diskEq, writesEq, dataEq⟩
  have installed : (execAll recycled store
      (installTransFrom true start 0 (readHead (disk start)))).writes =
        store.writes ++ homeWrites contents (readHead (disk start)) :=
    installTransFrom_spec recycled true store start 0
      (fun index bound => by rw [dataEq]; exact logged index bound)
      (fun index bound => by rw [diskEq]; exact logged index bound) (by simpa using outside)
  rw [recoverFromLog, readEq, head, recover]
  simp only [execAll_append]
  generalize homeEq : execAll recycled store (installTrans true start (readHead (disk start))) =
    homeStore
  rw [installTrans] at homeEq
  rw [homeEq, writesEq, List.nil_append] at installed
  rcases writeHead_spec recycled (execAll recycled homeStore [.clearHead]) start [] with
    ⟨block, eraseWrites, _⟩
  refine ⟨block, ?_⟩
  rw [eraseWrites]
  change homeStore.writes ++ _ = _
  rw [installed]

end

/-! ## The disk between crashes -/

/-- Block numbers that do not belong to the log. -/
def Outside (start size blockno : Nat) : Prop :=
  blockno < start ∨ start + size ≤ blockno

/-- The disk with every block of the header at its new contents. -/
def updated (disk : Nat → Block) (lh : List Nat) (contents : Nat → Block) : Nat → Block :=
  fun blockno => if blockno ∈ lh then contents blockno else disk blockno

/-- No transaction is committed, and outside the log the disk is as expected. -/
structure Intact (start size : Nat) (expected disk : Nat → Block) : Prop where
  head : headN (disk start) = 0
  home : ∀ blockno, Outside start size blockno → disk blockno = expected blockno

/-- The transaction is committed: the header lists its blocks, the log holds
them, and some of them may have been installed already. -/
structure Committed (start size : Nat) (old : Nat → Block) (lh : List Nat)
    (contents disk : Nat → Block) : Prop where
  head : readHead (disk start) = lh
  logged : ∀ index (bound : index < lh.length), disk (start + index + 1) = contents lh[index]
  listed : ∀ blockno ∈ lh, disk blockno = old blockno ∨ disk blockno = contents blockno
  unlisted : ∀ blockno, Outside start size blockno → blockno ∉ lh → disk blockno = old blockno

section

variable {start size : Nat} {expected old disk contents : Nat → Block} {lh : List Nat}

variable {blockno : Nat}

/-- Writing inside the log, but not the header, changes nothing that recovery
looks at while no transaction is committed. -/
theorem Intact.write_log (intact : Intact start size expected disk) (block : Block)
    (lower : start < blockno) (upper : blockno < start + size) :
    Intact start size expected (update disk blockno block) where
  head := by
    rw [update_of_ne (by omega)]
    exact intact.head
  home := by
    intro other outside
    unfold Outside at outside
    rw [update_of_ne (by omega)]
    exact intact.home other outside

theorem Intact.erase (intact : Intact start size expected disk) (block : Block)
    (room : 0 < size) :
    Intact start size expected (update disk start (putHead block [])) where
  head := by
    rw [update_self, headN_putHead _ (by simp)]
    rfl
  home := by
    intro other outside
    have := intact.home other outside
    unfold Outside at outside
    rw [update_of_ne (by omega)]
    exact this

theorem Intact.commit (intact : Intact start size old disk) (block : Block)
    (fits : lh.length + 1 ≤ size) (short : lh.length ≤ logSize)
    (small : ∀ blockno ∈ lh, blockno < 2 ^ 32)
    (outside : ∀ blockno ∈ lh, Outside start size blockno)
    (logged : ∀ index (bound : index < lh.length), disk (start + index + 1) = contents lh[index]) :
    Committed start size old lh contents (update disk start (putHead block lh)) where
  head := by
    rw [update_self]
    exact readHead_putHead block short small
  logged := by
    intro index bound
    rw [update_of_ne (by omega)]
    exact logged index bound
  listed := by
    intro blockno member
    have away := outside blockno member
    have := intact.home blockno away
    unfold Outside at away
    rw [update_of_ne (by omega)]
    exact .inl this
  unlisted := by
    intro blockno away _
    have := intact.home blockno away
    unfold Outside at away
    rw [update_of_ne (by omega)]
    exact this

section

variable (committed : Committed start size old lh contents disk)

include committed

theorem Committed.install (fits : lh.length + 1 ≤ size) (member : blockno ∈ lh)
    (away : Outside start size blockno) :
    Committed start size old lh contents (update disk blockno (contents blockno)) where
  head := by
    unfold Outside at away
    rw [update_of_ne (by omega)]
    exact committed.head
  logged := by
    intro index bound
    unfold Outside at away
    rw [update_of_ne (by omega)]
    exact committed.logged index bound
  listed := by
    intro other otherMember
    by_cases same : other = blockno
    · subst other
      exact .inr (update_self ..)
    · rw [update_of_ne same]
      exact committed.listed other otherMember
  unlisted := by
    intro other otherAway absent
    have different : other ≠ blockno := fun same => absent (same ▸ member)
    rw [update_of_ne different]
    exact committed.unlisted other otherAway absent

theorem Committed.erase (block : Block) (room : 0 < size)
    (installed : ∀ blockno ∈ lh, disk blockno = contents blockno) :
    Intact start size (updated old lh contents) (update disk start (putHead block [])) where
  head := by
    rw [update_self, headN_putHead _ (by simp)]
    rfl
  home := by
    intro blockno away
    have other : blockno ≠ start := by
      unfold Outside at away
      omega
    rw [update_of_ne other, updated]
    split
    · exact installed blockno ‹_›
    · exact committed.unlisted blockno away ‹_›

omit committed in
theorem applyWrites_homeWrites (member : blockno ∈ lh) :
    applyWrites disk (homeWrites contents lh) blockno = contents blockno := by
  induction lh generalizing disk with
  | nil => cases member
  | cons first rest induction =>
    rw [homeWrites, List.map_cons, applyWrites, List.foldl_cons]
    by_cases again : blockno ∈ rest
    · exact induction again
    · rcases List.mem_cons.mp member with rfl | later
      · refine (applyWrites_of_not_mem _ fun write writeMember => ?_).trans (update_self ..)
        rcases List.mem_map.mp writeMember with ⟨other, otherMember, rfl⟩
        exact fun same => again (same ▸ otherMember)
      · exact absurd later again

/-- Any number of the writes that install and then erase leaves the transaction
committed, or completely installed and erased. -/
theorem Committed.cut (block : Block) (fits : lh.length + 1 ≤ size)
    (outside : ∀ blockno ∈ lh, Outside start size blockno) (count : Nat) : let after := crashAfter disk (homeWrites contents lh ++ [(start, putHead block [])]) count
    (count ≤ lh.length → Committed start size old lh contents after) ∧
      (lh.length < count → Intact start size (updated old lh contents) after) := by
  have length : (homeWrites contents lh).length = lh.length := by simp [homeWrites]
  have installing : ∀ count, Committed start size old lh contents
      (crashAfter disk (homeWrites contents lh) count) := by
    refine crashAfter_preserves (fun write member middle holds => ?_) committed
    rcases List.mem_map.mp member with ⟨blockno, listed, rfl⟩
    exact holds.install fits listed (outside blockno listed)
  refine ⟨fun few => ?_, fun all => ?_⟩
  · rw [crashAfter, List.take_append_of_le_length (by omega)]
    exact installing count
  · rw [crashAfter, List.take_of_length_le (by simp [length]; omega), applyWrites_append]
    have done := installing lh.length
    rw [crashAfter, List.take_of_length_le (by omega)] at done
    exact done.erase block (by omega) fun blockno member => applyWrites_homeWrites member

end

end

/-! ## Recovery, cut short any number of times -/

theorem exec_disk (recycled : Nat → Bool) (store : Store) (cmd : Cmd) :
    ∃ writes, (exec recycled store cmd).writes = store.writes ++ writes ∧
      (exec recycled store cmd).disk = applyWrites store.disk writes := by
  cases cmd with
  | bwrite blockno => exact ⟨[(blockno, store.data blockno)], rfl, rfl⟩
  | _ => exact ⟨[], by simp [exec], rfl⟩

theorem execAll_disk (recycled : Nat → Bool) (store : Store) (cmds : List Cmd) :
    ∃ writes, (execAll recycled store cmds).writes = store.writes ++ writes ∧
      (execAll recycled store cmds).disk = applyWrites store.disk writes := by
  induction cmds generalizing store with
  | nil => exact ⟨[], by simp [execAll], rfl⟩
  | cons cmd cmds induction =>
    rcases exec_disk recycled store cmd with ⟨first, firstWrites, firstDisk⟩
    rcases induction (exec recycled store cmd) with ⟨second, secondWrites, secondDisk⟩
    refine ⟨first ++ second, ?_, ?_⟩
    · rw [← List.append_assoc, ← firstWrites]
      exact secondWrites
    · rw [applyWrites_append, ← firstDisk]
      exact secondDisk

theorem recoverFromLog_disk (recycled : Nat → Bool) (start : Nat) (disk : Nat → Block) :
    (recoverFromLog recycled start disk).disk =
      applyWrites disk (recoverFromLog recycled start disk).writes := by
  rcases execAll_disk recycled (execAll recycled (reboot disk) [.bread start, .brelse start])
    (recover start (readHead ((execAll recycled (reboot disk)
      [.bread start, .brelse start]).data start))) with ⟨writes, writesEq, diskEq⟩
  rw [recoverFromLog, diskEq, writesEq]
  rfl

/-- A recovery attempt that is cut short after some of its writes. -/
structure Attempt where
  recycled : Nat → Bool
  count : Nat

def attemptRecovery (start : Nat) (disk : Nat → Block) (attempt : Attempt) : Nat → Block :=
  crashAfter disk (recoverFromLog attempt.recycled start disk).writes attempt.count

variable {disk expected : Nat → Block} {size start : Nat}

theorem Intact.attempt (intact : Intact start size expected disk) (room : 0 < size)
    (recycled : Nat → Bool) :
    (∀ count, Intact start size expected
      (crashAfter disk (recoverFromLog recycled start disk).writes count)) ∧
      Intact start size expected (recoverFromLog recycled start disk).disk := by
  have empty := readHead_of_headN_zero intact.head
  have found : ∃ block, (recoverFromLog recycled start disk).writes =
      homeWrites disk (readHead (disk start)) ++ [(start, putHead block [])] :=
    recoverFromLog_writes recycled (by simp [empty]) (by simp [empty])
  rcases found with ⟨block, writes⟩
  rw [empty] at writes
  have all : ∀ count, Intact start size expected
      (crashAfter disk (recoverFromLog recycled start disk).writes count) := by
    rw [writes]
    refine crashAfter_preserves (fun write member middle holds => ?_) intact
    rcases List.mem_singleton.mp member with rfl
    exact holds.erase block room
  refine ⟨all, ?_⟩
  have complete := all (recoverFromLog recycled start disk).writes.length
  rwa [crashAfter, List.take_length, ← recoverFromLog_disk] at complete

variable {contents old : Nat → Block} {lh : List Nat}

section

variable (committed : Committed start size old lh contents disk) (fits : lh.length + 1 ≤ size)
  (outside : ∀ blockno ∈ lh, Outside start size blockno)

include committed fits outside

theorem Committed.attempt (recycled : Nat → Bool) :
    (∀ count,
      Committed start size old lh contents
          (crashAfter disk (recoverFromLog recycled start disk).writes count) ∨
        Intact start size (updated old lh contents)
          (crashAfter disk (recoverFromLog recycled start disk).writes count)) ∧
      Intact start size (updated old lh contents) (recoverFromLog recycled start disk).disk := by
  have listed := committed.head
  have found : ∃ block, (recoverFromLog recycled start disk).writes =
      homeWrites contents lh ++ [(start, putHead block [])] := by
    rw [← listed]
    refine recoverFromLog_writes recycled (by simpa only [listed] using committed.logged) ?_
    rw [listed]
    intro blockno member
    have := outside blockno member
    unfold Outside at this
    omega
  rcases found with ⟨block, writes⟩
  have cut := committed.cut block fits outside
  rw [recoverFromLog_disk, writes]
  constructor
  · intro count
    rcases Nat.lt_or_ge lh.length count with all | few
    · exact .inr ((cut count).2 all)
    · exact .inl ((cut count).1 few)
  · have done := (cut (lh.length + 1)).2 (by omega)
    rwa [crashAfter, List.take_of_length_le (by simp [homeWrites])] at done

omit committed fits outside in
/-- Cutting recovery short any number of times changes nothing that is not
committed. -/
theorem Intact.retried (intact : Intact start size expected disk) (room : 0 < size)
    (attempts : List Attempt) :
    Intact start size expected (attempts.foldl (attemptRecovery start) disk) := by
  induction attempts generalizing disk with
  | nil => exact intact
  | cons attempt rest induction =>
    exact induction ((intact.attempt room attempt.recycled).1 attempt.count)

theorem Committed.retried (attempts : List Attempt) :
    Committed start size old lh contents (attempts.foldl (attemptRecovery start) disk) ∨
      Intact start size (updated old lh contents)
        (attempts.foldl (attemptRecovery start) disk) := by
  induction attempts generalizing disk with
  | nil => exact .inl committed
  | cons attempt rest induction =>
    rcases (committed.attempt fits outside attempt.recycled).1 attempt.count with
      still | installed
    · exact induction still
    · exact .inr (installed.retried (by omega) rest)

end

/-- A crash during `commit()` leaves the disk uncommitted if it comes before the
write of the header, and otherwise committed or completely installed. -/
theorem commit_crash (store : Store) (issued : store.writes = [])
    (clean : headN (store.disk start) = 0) (nonempty : 0 < lh.length) (fits : lh.length + 1 ≤ size)
    (short : lh.length ≤ logSize) (small : ∀ blockno ∈ lh, blockno < 2 ^ 32)
    (outside : ∀ blockno ∈ lh, Outside start size blockno)
    (cached : ∀ blockno ∈ lh, store.cache blockno = some (contents blockno))
    (pinned : ∀ blockno ∈ lh, store.pinned blockno = true) (recycled : Nat → Bool) (count : Nat) :
    let crashed := crashAfter store.disk (execAll recycled store (commit start lh)).writes count
    (count ≤ lh.length → Intact start size store.disk crashed) ∧
      (lh.length < count → Committed start size store.disk lh contents crashed ∨
        Intact start size (updated store.disk lh contents) crashed) := by
  have inside : ∀ blockno ∈ lh, blockno < start ∨ start + lh.length < blockno := by
    intro blockno member
    have := outside blockno member
    unfold Outside at this
    omega
  rcases commit_writes recycled store nonempty cached pinned inside with ⟨first, second, writes⟩
  rw [issued, List.nil_append] at writes
  rw [writes]
  -- no write of `write_log` commits anything
  have logging : ∀ count, Intact start size store.disk
      (crashAfter store.disk (logWrites start contents 0 lh) count) := by
    refine crashAfter_preserves (fun write member middle holds => ?_) ⟨clean, fun _ _ => rfl⟩
    have := mem_logWrites member
    exact holds.write_log write.2 (by omega) (by omega)
  refine ⟨fun before => ?_, fun after => ?_⟩
  · rw [crashAfter, List.take_append_of_le_length (by simpa using before)]
    exact logging count
  · have split : count =
        (logWrites start contents 0 lh).length + (count - lh.length - 1 + 1) := by
      simp
      omega
    rw [crashAfter, split, List.take_length_add_append, List.take_succ_cons, applyWrites_append]
    have done := logging lh.length
    rw [crashAfter, List.take_of_length_le (by simp)] at done
    have logged : ∀ index (bound : index < lh.length),
        applyWrites store.disk (logWrites start contents 0 lh) (start + index + 1) =
          contents lh[index] := fun index bound => by
      simpa using applyWrites_logWrites store.disk start contents 0 lh bound
    have cut := (done.commit first fits short small outside logged).cut second fits outside
      (count - lh.length - 1)
    rcases Nat.lt_or_ge lh.length (count - lh.length - 1) with all | few
    · exact .inr (cut.2 all)
    · exact .inl (cut.1 few)

/-- Crash atomicity. A commit is cut off after `count` of its disk writes, then
any number of recoveries are cut off, and the last one completes. Outside the
log every block then has its new contents if the write of the header was among
the first `count` writes of the commit, and its old contents if it was not; and
no transaction is left in the log. -/
theorem crash_atomicity {start size : Nat} {lh : List Nat} {contents : Nat → Block}
    (store : Store) (issued : store.writes = []) (clean : headN (store.disk start) = 0)
    (nonempty : 0 < lh.length) (fits : lh.length ≤ size - 1) (short : lh.length ≤ logSize)
    (small : ∀ blockno ∈ lh, blockno < 2 ^ 32)
    (outside : ∀ blockno ∈ lh, Outside start size blockno)
    (cached : ∀ blockno ∈ lh, store.cache blockno = some (contents blockno))
    (pinned : ∀ blockno ∈ lh, store.pinned blockno = true)
    (recycled : Nat → Bool) (count : Nat) (attempts : List Attempt) (last : Nat → Bool) :
    let crashed := crashAfter store.disk (execAll recycled store (commit start lh)).writes count
    let recovered := (recoverFromLog last start
      (attempts.foldl (attemptRecovery start) crashed)).disk
    (if lh.length < count then
        ∀ blockno, Outside start size blockno →
          recovered blockno = updated store.disk lh contents blockno
      else ∀ blockno, Outside start size blockno → recovered blockno = store.disk blockno) ∧
      headN (recovered start) = 0 := by
  have room : lh.length + 1 ≤ size := by omega
  have crash := commit_crash store issued clean nonempty room short small outside cached pinned
    recycled count
  intro crashed recovered
  split
  · rename_i after
    have final : Intact start size (updated store.disk lh contents) recovered := by
      rcases crash.2 after with committed | installed
      · rcases committed.retried room outside attempts with still | installed
        · exact (still.attempt room outside last).2
        · exact (installed.attempt (by omega) last).2
      · exact ((installed.retried (by omega) attempts).attempt (by omega) last).2
    exact ⟨final.home, final.head⟩
  · rename_i before
    have final : Intact start size store.disk recovered :=
      (((crash.1 (by omega)).retried (by omega) attempts).attempt (by omega) last).2
    exact ⟨final.home, final.head⟩

/-- A block whose bytes are all `value`. -/
def filled (value : UInt8) : Block := fun _ => value

/-- An empty disk, and a transaction that fills block 40 with sevens. -/
def oneBlock : Store where
  disk := fun _ => filled 0
  cache := fun blockno => if blockno = 40 then some (filled 7) else none
  pinned := fun blockno => blockno == 40
  reads := 0
  writes := []

/-- The crash comes right after the write of the header, the first recovery is
cut off before it writes anything, and the second one installs the block. -/
theorem crash_atomicity_oneBlock :
    (recoverFromLog (fun _ => true) 2 (attemptRecovery 2
      (crashAfter oneBlock.disk (execAll (fun _ => true) oneBlock (commit 2 [40])).writes 2)
      ⟨fun _ => false, 0⟩)).disk 40 = filled 7 := by
  have outside : ∀ blockno ∈ [40], Outside 2 30 blockno := by simp [Outside]
  have cached : ∀ blockno ∈ [40], oneBlock.cache blockno = some (filled 7) := by
    simp [oneBlock]
  exact (@crash_atomicity 2 30 [40] (fun _ => filled 7) oneBlock rfl (by decide) (by decide)
    (by decide) (by decide) (by decide) outside cached (by decide) (fun _ => true) 2
    [⟨fun _ => false, 0⟩] (fun _ => true)).1 40 (outside 40 (by decide))

end Xv6.Log
