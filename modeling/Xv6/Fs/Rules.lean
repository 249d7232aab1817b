import Xv6.Fs.Code

/-! # Rules for the calls

What a program ensures that starts with a call, or is one. The rules follow the
code: a proof about a function applies them in the order of its statements. -/

namespace Xv6.Fs

open Prog

section Rules

variable {p : Nat} {allows : Allows State} {state : State} {Value : Type}

theorem call_ensures {op : Op} {post : op.Res → State → Prop} {value : op.Res} {after : State}
    (answered : answer p op state = .next (value, after)) (holds : post value after) :
    ensures (answer p) allows (.call op .ret) state post := by
  rw [ensures_call, answered]
  exact ensures_ret.mpr holds

theorem call_then {op : Op} {next : op.Res → FsProg Value} {post : Value → State → Prop}
    {value : op.Res} {after : State} (answered : answer p op state = .next (value, after))
    (holds : ensures (answer p) allows (next value) after post) :
    ensures (answer p) allows ((.call op .ret : FsProg op.Res) >>= next) state post :=
  ensures_bind.mpr (call_ensures answered holds)

variable {post : Value → State → Prop} {ip b : Nat}

/-! ## Calls that are always answered -/

section Unit

variable {next : Unit → FsProg Value} {done : Unit → State → Prop}

theorem refill_then {dev inum : Nat} (holds : ensures (answer p) allows (next ())
    (state.setInode ip { state.inode ip with dev, inum, ref := 1, valid := false }) post) :
    ensures (answer p) allows (refill ip dev inum >>= next) state post :=
  call_then rfl holds

theorem incRef_then (holds : ensures (answer p) allows (next ())
    (state.setRef ip ((state.inode ip).ref + 1)) post) :
    ensures (answer p) allows (incRef ip >>= next) state post :=
  call_then rfl holds

theorem decRef_then (holds : ensures (answer p) allows (next ())
    (state.setRef ip ((state.inode ip).ref - 1)) post) :
    ensures (answer p) allows (decRef ip >>= next) state post :=
  call_then rfl holds

theorem setValid_then {valid : Bool} (holds : ensures (answer p) allows (next ())
    (state.setInode ip { state.inode ip with valid }) post) :
    ensures (answer p) allows (setValid ip valid >>= next) state post :=
  call_then rfl holds

theorem update_then {change : Dinode → Dinode} (holds : ensures (answer p) allows (next ())
    (state.setNode ip (change (state.inode ip).node)) post) :
    ensures (answer p) allows (update ip change >>= next) state post :=
  call_then rfl holds

theorem update_ensures {change : Dinode → Dinode}
    (holds : done () (state.setNode ip (change (state.inode ip).node))) :
    ensures (answer p) allows (update ip change) state done :=
  call_ensures rfl holds

theorem releasesleep_then (holds : ensures (answer p) allows (next ()) (state.setLock ip none) post) :
    ensures (answer p) allows (releasesleep ip >>= next) state post :=
  call_then rfl holds

theorem releasesleep_ensures (holds : done () (state.setLock ip none)) :
    ensures (answer p) allows (releasesleep ip) state done :=
  call_ensures rfl holds

theorem store_then {change : Block → Block} (holds : ensures (answer p) allows (next ())
    (state.setBlock b (change (state.block b))) post) :
    ensures (answer p) allows (store b change >>= next) state post :=
  call_then rfl holds

/-! ## Calls that panic or wait -/

theorem acquire_then (free : state.itableLock = none) (holds : ensures (answer p) allows (next ())
    (state.setItable (some p)) post) :
    ensures (answer p) allows (acquire >>= next) state post :=
  call_then (by rw [answer, if_pos free]) holds

theorem acquire_ensures (free : state.itableLock = none)
    (holds : done () (state.setItable (some p))) :
    ensures (answer p) allows acquire state done :=
  call_ensures (by rw [answer, if_pos free]) holds

theorem acquiresleep_then (free : (state.inode ip).lock = none)
    (holds : ensures (answer p) allows (next ()) (state.setLock ip (some p)) post) :
    ensures (answer p) allows (acquiresleep ip >>= next) state post :=
  call_then (by rw [answer, if_pos free]) holds

theorem acquiresleep_blocked (locked : (state.inode ip).lock ≠ none)
    (waits : state.itableLock ≠ some p → allows.wait state)
    (panics : state.itableLock = some p → allows.panic "sched locks" state) :
    ensures (answer p) allows (acquiresleep ip >>= next) state post := by
  refine ensures_bind.mpr (ensures_call.mpr ?_)
  rw [answer, if_neg locked, Fs.waits]
  split
  · rename_i mine
    exact panics mine
  · rename_i notMine
    exact waits notMine

theorem logWrite_then (inside : 1 ≤ state.outstanding)
    (holds : ensures (answer p) allows (next ()) (state.record b) post) :
    ensures (answer p) allows (logWrite b >>= next) state post :=
  call_then (by rw [answer, if_neg (Nat.not_lt.mpr inside)]) holds

end Unit

theorem itable_then {next : (Nat → Inode) → FsProg Value}
    (holds : ensures (answer p) allows (next state.inode) state post) :
    ensures (answer p) allows (itable >>= next) state post :=
  call_then rfl holds

theorem inode_then {next : Inode → FsProg Value}
    (holds : ensures (answer p) allows (next (state.inode ip)) state post) :
    ensures (answer p) allows (inode ip >>= next) state post :=
  call_then rfl holds

theorem holdingsleep_then {next : Bool → FsProg Value}
    (holds : ensures (answer p) allows (next (decide ((state.inode ip).lock = some p))) state post) :
    ensures (answer p) allows (holdingsleep ip >>= next) state post :=
  call_then rfl holds

theorem bread_then {next : Block → FsProg Value} (free : state.held b = none)
    (holds : ensures (answer p) allows (next (state.block b)) (state.setHeld b (some p)) post) :
    ensures (answer p) allows (bread b >>= next) state post :=
  call_then (by rw [answer, if_pos free]) holds

end Rules

/-! ## The parts of a state -/

namespace State

variable (state : State) (b c ip : Nat)

@[simp] theorem setHeld_self (holder : Option Nat) : (state.setHeld b holder).held b = holder :=
  Function.update_self ..

@[simp] theorem setBlock_self (data : Block) : (state.setBlock b data).block b = data :=
  Function.update_self ..

@[simp] theorem setInode_self (inode : Inode) : (state.setInode ip inode).inode ip = inode :=
  Function.update_self ..

/-! A lock that is acquired and released again. -/

theorem setHeld_setBlock (holder : Option Nat) (data : Block) :
    (state.setHeld b holder).setBlock c data = (state.setBlock c data).setHeld b holder := rfl

theorem setHeld_record (holder : Option Nat) :
    (state.setHeld b holder).record c = (state.record c).setHeld b holder := rfl

theorem setHeld_setNode (holder : Option Nat) (node : Dinode) :
    (state.setHeld b holder).setNode ip node = (state.setNode ip node).setHeld b holder := rfl

theorem setItable_setInode (holder : Option Nat) (inode : Inode) :
    (state.setItable holder).setInode ip inode = (state.setInode ip inode).setItable holder := rfl

theorem setItable_setItable {state : State} (free : state.itableLock = none)
    (holder : Option Nat) : (state.setItable holder).setItable none = state := by
  simp only [setItable, ← free]

theorem setHeld_setHeld {state : State} {b : Nat} (free : state.held b = none)
    (holder : Option Nat) : (state.setHeld b holder).setHeld b none = state := by
  have same : Function.update (Function.update state.held b holder) b none = state.held := by
    rw [Function.update_idem, ← free, Function.update_eq_self]
  rw [setHeld, setHeld, same]

end State

section Release

variable {p b : Nat} {allows : Allows State} {state : State} {Value : Type}

theorem brelse_ensures {post : Unit → State → Prop} (free : state.held b = none)
    (holds : post () state) :
    ensures (answer p) allows (brelse b) (state.setHeld b (some p)) post := by
  apply call_ensures _ holds
  rw [answer, if_pos (State.setHeld_self ..), State.setHeld_setHeld free]

theorem brelse_then {next : Unit → FsProg Value} {post : Value → State → Prop}
    (free : state.held b = none) (holds : ensures (answer p) allows (next ()) state post) :
    ensures (answer p) allows (brelse b >>= next) (state.setHeld b (some p)) post :=
  ensures_bind.mpr (brelse_ensures free holds)

theorem release_ensures {post : Unit → State → Prop} (free : state.itableLock = none)
    (holds : post () state) :
    ensures (answer p) allows release (state.setItable (some p)) post := by
  apply call_ensures _ holds
  have mine : (state.setItable (some p)).itableLock = some p := rfl
  rw [answer, if_pos mine, State.setItable_setItable free]

theorem release_then {next : Unit → FsProg Value} {post : Value → State → Prop}
    (free : state.itableLock = none) (holds : ensures (answer p) allows (next ()) state post) :
    ensures (answer p) allows (release >>= next) (state.setItable (some p)) post :=
  ensures_bind.mpr (release_ensures free holds)

end Release

end Xv6.Fs
