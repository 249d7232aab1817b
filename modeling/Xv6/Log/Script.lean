import Xv6.Log.Header

/-! # What a commit and a recovery do

The code of `write_log`, `write_head`, `install_trans`, `commit` and
`recover_from_log`, as the sequence of buffer operations it performs for a given
header. `log.lh` does not change while `commit()` runs. -/

namespace Xv6.Log

open Function (update update_of_ne update_eq_self update_comm)

/-- The buffer operations that `log.c` is made of. A buffer is named by the
block it holds: `copy` is the `memmove` of one buffer's data to another's. -/
inductive Cmd where
  | bread (blockno : Nat)
  | copy (target source : Nat)
  | putHead (blockno : Nat) (lh : List Nat)
  | bwrite (blockno : Nat)
  | bunpin (blockno : Nat)
  | brelse (blockno : Nat)
  | clearHead
  deriving DecidableEq

/-- The loop of `write_log` from `tail` on. -/
def writeLogFrom (start : Nat) : (tail : Nat) → List Nat → List Cmd
  | _, [] => []
  | tail, blockno :: rest =>
    [.bread (start + tail + 1), .bread blockno,
      .copy (start + tail + 1) blockno, .bwrite (start + tail + 1),
      .brelse blockno, .brelse (start + tail + 1)] ++
    writeLogFrom start (tail + 1) rest

/-- `write_log`: copy modified blocks from cache to log. -/
def writeLog (start : Nat) (lh : List Nat) : List Cmd :=
  writeLogFrom start 0 lh

/-- `write_head`: write the in-memory log header to disk. -/
def writeHead (start : Nat) (lh : List Nat) : List Cmd :=
  [.bread start, .putHead start lh, .bwrite start, .brelse start]

/-- The loop of `install_trans` from `tail` on. -/
def installTransFrom (recovering : Bool) (start : Nat) : (tail : Nat) → List Nat → List Cmd
  | _, [] => []
  | tail, blockno :: rest =>
    [.bread (start + tail + 1), .bread blockno,
      .copy blockno (start + tail + 1), .bwrite blockno] ++
    (if recovering then [] else [.bunpin blockno]) ++
    [.brelse (start + tail + 1), .brelse blockno] ++
    installTransFrom recovering start (tail + 1) rest

/-- `install_trans`: copy committed blocks from log to their home location. -/
def installTrans (recovering : Bool) (start : Nat) (lh : List Nat) : List Cmd :=
  installTransFrom recovering start 0 lh

def commit (start : Nat) (lh : List Nat) : List Cmd :=
  if lh.length > 0 then
    writeLog start lh ++ writeHead start lh ++ installTrans false start lh ++
      [.clearHead] ++ writeHead start []
  else []

/-- `recover_from_log` after `read_head` has found the header `lh`. -/
def recover (start : Nat) (lh : List Nat) : List Cmd :=
  installTrans true start lh ++ [.clearHead] ++ writeHead start []

/-! ## Running the operations against a disk and a buffer cache -/

/-- The disk, the valid buffers of the cache, the buffers pinned by the log, and
the disk writes issued so far. -/
structure Store where
  disk : Nat → Block
  cache : Nat → Option Block
  pinned : Nat → Bool
  reads : Nat
  writes : List (Nat × Block)

/-- What a `bread` that is not recycled in between returns. -/
def Store.data (store : Store) (blockno : Nat) : Block :=
  (store.cache blockno).getD (store.disk blockno)

/-- The cache may have recycled a buffer that is not pinned since its last use:
`recycled` tells for the n-th `bread` whether it finds its block evicted. -/
def exec (recycled : Nat → Bool) (store : Store) : Cmd → Store
  | .bread blockno =>
    let block :=
      if recycled store.reads && !store.pinned blockno then store.disk blockno
      else store.data blockno
    { store with
      cache := update store.cache blockno (some block)
      reads := store.reads + 1 }
  | .copy target source =>
    { store with
      cache := update store.cache target (some (store.data source)) }
  | .putHead blockno lh =>
    { store with
      cache := update store.cache blockno (some (Log.putHead (store.data blockno) lh)) }
  | .bwrite blockno =>
    { store with
      disk := update store.disk blockno (store.data blockno)
      writes := store.writes ++ [(blockno, store.data blockno)] }
  | .bunpin blockno =>
    { store with pinned := update store.pinned blockno false }
  | .brelse _ => store
  | .clearHead => store

def execAll (recycled : Nat → Bool) (store : Store) (cmds : List Cmd) : Store :=
  cmds.foldl (exec recycled) store

theorem execAll_append (recycled : Nat → Bool) (store : Store) (first second : List Cmd) :
    execAll recycled store (first ++ second) =
      execAll recycled (execAll recycled store first) second :=
  List.foldl_append

/-- A freshly booted machine: nothing is cached and nothing is pinned. -/
def reboot (disk : Nat → Block) : Store where
  disk := disk
  cache := fun _ => none
  pinned := fun _ => false
  reads := 0
  writes := []

/-- `recover_from_log` on a freshly booted machine: `read_head`, then install
and clear. -/
def recoverFromLog (recycled : Nat → Bool) (start : Nat) (disk : Nat → Block) : Store :=
  let store := execAll recycled (reboot disk) [.bread start, .brelse start]
  execAll recycled store (recover start (readHead (store.data start)))

/-! ## The loops, iteration by iteration -/

variable {blockno start tail : Nat} {contents : Block}

theorem exec_writeLog_iteration (recycled : Nat → Bool) (store : Store)
    (cached : store.cache blockno = some contents) (pinned : store.pinned blockno = true)
    (different : blockno ≠ start + tail + 1) :
    execAll recycled store [.bread (start + tail + 1), .bread blockno,
        .copy (start + tail + 1) blockno, .bwrite (start + tail + 1),
        .brelse blockno, .brelse (start + tail + 1)] =
      { disk := update store.disk (start + tail + 1) contents
        cache := update store.cache (start + tail + 1) (some contents), pinned := store.pinned
        reads := store.reads + 2, writes := store.writes ++ [(start + tail + 1, contents)] } := by
  have unchanged : update store.cache blockno (some contents) = store.cache := by
    rw [← cached, update_eq_self]
  simp [execAll, exec, Store.data, pinned, cached, update_of_ne different,
    update_comm different.symm, unchanged]

theorem exec_install_iteration (recycled : Nat → Bool) (recovering : Bool) (store : Store)
    (cached : store.data (start + tail + 1) = contents)
    (logged : store.disk (start + tail + 1) = contents) (different : blockno ≠ start + tail + 1) :
    let after := execAll recycled store ([.bread (start + tail + 1), .bread blockno,
        .copy blockno (start + tail + 1), .bwrite blockno] ++
      (if recovering then [] else [.bunpin blockno]) ++
      [.brelse (start + tail + 1), .brelse blockno])
    after.disk = update store.disk blockno contents ∧
      after.writes = store.writes ++ [(blockno, contents)] ∧
      ∀ other, other ≠ blockno → other ≠ start + tail + 1 →
        after.cache other = store.cache other := by
  have same : (if recycled store.reads && !store.pinned (start + tail + 1) then
      store.disk (start + tail + 1) else store.data (start + tail + 1)) = contents := by
    split
    · exact logged
    · exact cached
  cases recovering <;>
    simp +contextual [execAll, exec, Store.data, update_of_ne, different, different.symm] <;>
    simp [Store.data] at same <;>
    simp [same]

end Xv6.Log
