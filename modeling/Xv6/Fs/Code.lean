import Xv6.Fs.Interface
import Xv6.Fs.Name

/-! # `kernel/fs.c`

The blocks, inodes and directories, as programs. The superblock `sb` does not
change after `fsinit`. A pointer to an inode is its index in the table, and a
null pointer is `none`. -/

namespace Xv6.Fs

open Prog

/-- A `uint`. -/
def uint (n : Nat) : Nat := n % 2 ^ 32

section Code

variable (sb : Superblock)

/-! ## Blocks -/

def bzero (bno : Nat) : FsProg Unit := do
  let _ ← bread bno
  store bno fun _ _ => 0
  logWrite bno
  brelse bno

/-- The inner loop of `balloc`: the first free bit from `bi` on of the bitmap block
that starts with the bit of block `b`. -/
def freeBit (data : Block) (b : Nat) : (count bi : Nat) → Option Nat
  | 0, _ => none
  | count + 1, bi =>
    if b + bi < sb.size then
      if bit data bi then freeBit data b count (bi + 1) else some bi
    else none

/-- One round of the outer loop of `balloc`. -/
def ballocIn (b : Nat) : FsProg (Prog.Flow Unit Nat) := do
  let data ← bread (sb.bblock b)
  match freeBit sb data b bpb 0 with
  | some bi =>
    store (sb.bblock b) (setBit · bi)
    logWrite (sb.bblock b)
    brelse (sb.bblock b)
    bzero (b + bi)
    return .done (b + bi)
  | none =>
    brelse (sb.bblock b)
    return .next ()

def balloc : FsProg Nat := do
  match ← loop (fun i _ => ballocIn sb (i * bpb)) ((sb.size + bpb - 1) / bpb) 0 () with
  | .done b => return b
  | .next () => return 0

def bfree (b : Nat) : FsProg Unit := do
  let data ← bread (sb.bblock b)
  if bit data (b % bpb) then
    store (sb.bblock b) (clearBit · (b % bpb))
    logWrite (sb.bblock b)
    brelse (sb.bblock b)
  else .panic "freeing free block"

/-! ## Inodes -/

def iget (dev inum : Nat) : FsProg Nat := do
  acquire
  let table ← itable
  match (List.range ninode).find? fun ip =>
      0 < (table ip).ref && (table ip).dev == dev && (table ip).inum == inum with
  | some ip =>
    incRef ip
    release
    return ip
  | none =>
    match (List.range ninode).find? fun ip => (table ip).ref == 0 with
    | some empty =>
      refill empty dev inum
      release
      return empty
    | none => .panic "iget: no inodes"

/-- One round of the loop of `ialloc`. -/
def iallocAt (dev type inum : Nat) : FsProg (Prog.Flow Unit Nat) := do
  let data ← bread (sb.iblock inum)
  if (Dinode.read data (inum % ipb)).type = 0 then
    store (sb.iblock inum) (Dinode.write · (inum % ipb) { Dinode.zero with type })
    logWrite (sb.iblock inum)
    brelse (sb.iblock inum)
    let ip ← iget dev inum
    return .done ip
  else
    brelse (sb.iblock inum)
    return .next ()

def ialloc (dev type : Nat) : FsProg (Option Nat) := do
  match ← loop (fun inum _ => iallocAt sb dev type inum) (sb.ninodes - 1) 1 () with
  | .done ip => return some ip
  | .next () => return none

def iupdate (ip : Nat) : FsProg Unit := do
  let slot ← inode ip
  let _ ← bread (sb.iblock slot.inum)
  store (sb.iblock slot.inum) (Dinode.write · (slot.inum % ipb) slot.node)
  logWrite (sb.iblock slot.inum)
  brelse (sb.iblock slot.inum)

def idup (ip : Nat) : FsProg Nat := do
  acquire
  incRef ip
  release
  return ip

/-- The part of `ilock` that reads the inode from disk. -/
def ireload (ip inum : Nat) : FsProg Unit := do
  let data ← bread (sb.iblock inum)
  update ip fun _ => Dinode.read data (inum % ipb)
  brelse (sb.iblock inum)
  setValid ip true
  if (Dinode.read data (inum % ipb)).type = 0 then .panic "ilock: no type" else return ()

def ilock (ip : Nat) : FsProg Unit := do
  let slot ← inode ip
  if slot.ref < 1 then .panic "ilock"
  else
    acquiresleep ip
    let slot ← inode ip
    if slot.valid then return () else ireload sb ip slot.inum

def iunlock (ip : Nat) : FsProg Unit := do
  let holding ← holdingsleep ip
  let slot ← inode ip
  if !holding || slot.ref < 1 then .panic "iunlock" else releasesleep ip

/-- The loop of `itrunc` over the direct blocks. -/
def itruncDirect (ip : Nat) : FsProg Unit :=
  forEach (fun i => do
    let slot ← inode ip
    if slot.node.addr i = 0 then return ()
    else
      bfree sb (slot.node.addr i)
      update ip (·.setAddr i 0)) ndirect 0

/-- The loop of `itrunc` over the entries of the indirect block, whose bytes are
`a`. -/
def itruncEntries (a : Block) : FsProg Unit :=
  forEach (fun j => if a.word 4 j = 0 then .ret () else bfree sb (a.word 4 j)) nindirect 0

/-- `itrunc` frees the blocks that the indirect block lists, and then that block. -/
def itruncIndirect (ip : Nat) : FsProg Unit := do
  let slot ← inode ip
  let addr := slot.node.addr ndirect
  if addr = 0 then return ()
  else
    let a ← bread addr
    itruncEntries sb a
    brelse addr
    bfree sb addr
    update ip (·.setAddr ndirect 0)

def itrunc (ip : Nat) : FsProg Unit := do
  itruncDirect sb ip
  itruncIndirect sb ip
  update ip ({ · with size := 0 })
  iupdate sb ip

/-- The part of `iput` that frees an inode without links and other references. -/
def ifree (ip : Nat) : FsProg Unit := do
  let slot ← inode ip
  if slot.ref = 1 && slot.valid && slot.node.nlink = 0 then
    acquiresleep ip
    release
    itrunc sb ip
    update ip ({ · with type := 0 })
    iupdate sb ip
    setValid ip false
    releasesleep ip
    acquire
  else return ()

def iput (ip : Nat) : FsProg Unit := do
  acquire
  ifree sb ip
  decRef ip
  release

/-! ## The content of inodes -/

/-- `bmap` with the indirect block `addr`: entry `bn` of it. -/
def bmapIndirect (addr bn : Nat) : FsProg Nat := do
  let a ← bread addr
  if a.word 4 bn = 0 then
    let fresh ← balloc sb
    if fresh = 0 then
      brelse addr
      return 0
    else
      store addr (·.setWord 4 bn fresh)
      logWrite addr
      brelse addr
      return fresh
  else
    brelse addr
    return a.word 4 bn

/-- `ip->addrs[k]`, after a block has been allocated for it if there is none. -/
def bmapAddr (ip k : Nat) : FsProg Nat := do
  let slot ← inode ip
  if slot.node.addr k = 0 then
    let fresh ← balloc sb
    if fresh = 0 then return 0
    else
      update ip (·.setAddr k fresh)
      return fresh
  else return slot.node.addr k

def bmap (ip bn : Nat) : FsProg Nat := do
  if bn < ndirect then bmapAddr sb ip bn
  else if bn - ndirect < nindirect then
    let addr ← bmapAddr sb ip ndirect
    if addr = 0 then return 0 else bmapIndirect sb addr (bn - ndirect)
  else .panic "bmap: out of range"

/-- One round of the loop of `readi`, after `got.length` bytes of `n`. -/
def readiIn (ip off n room : Nat) (got : List UInt8) :
    FsProg (Prog.Flow (List UInt8) (Int × List UInt8)) := do
  let tot := got.length
  if tot < n then
    let addr ← bmap sb ip ((off + tot) / bsize)
    if addr = 0 then return .done (tot, got)
    else
      let data ← bread addr
      let m := min (n - tot) (bsize - (off + tot) % bsize)
      brelse addr
      if room < tot + m then
        return .done (-1, got ++ data.read ((off + tot) % bsize) (room - tot))
      else return .next (got ++ data.read ((off + tot) % bsize) m)
  else return .done (tot, got)

/-- `readi`. The destination takes `room` bytes before `either_copyout` fails. The
bytes are those that have been stored there. -/
def readi (ip off n room : Nat) : FsProg (Int × List UInt8) := do
  let slot ← inode ip
  if off > slot.node.size ∨ uint (off + n) < off then return (0, [])
  else
    let n := if uint (off + n) > slot.node.size then slot.node.size - off else n
    match ← loop (fun _ got => readiIn sb ip off n room got) n 0 [] with
    | .done result => return result
    | .next got => return (got.length, got)

/-- One round of the loop of `writei`, after `tot` bytes of `n`. -/
def writeiIn (ip : Nat) (src : List UInt8) (off n tot : Nat) : FsProg (Prog.Flow Nat Nat) := do
  if tot < n then
    let addr ← bmap sb ip ((off + tot) / bsize)
    if addr = 0 then return .done tot
    else
      let _ ← bread addr
      let m := min (n - tot) (bsize - (off + tot) % bsize)
      store addr (·.write ((off + tot) % bsize) ((src.drop tot).take m))
      if src.length < tot + m then
        brelse addr
        return .done tot
      else
        logWrite addr
        brelse addr
        return .next (tot + m)
  else return .done tot

/-- The test at the end of `writei`: the file has grown to `off`. -/
def growTo (ip off : Nat) : FsProg Unit := do
  let slot ← inode ip
  if off > slot.node.size then update ip ({ · with size := off }) else return ()

/-- `writei`. The bytes of the source up to the first one that cannot be read are
`src`. -/
def writei (ip : Nat) (src : List UInt8) (off n : Nat) : FsProg Int := do
  let slot ← inode ip
  if off > slot.node.size ∨ uint (off + n) < off then return -1
  else if uint (off + n) > maxFile * bsize then return -1
  else
    match ← loop (fun _ tot => writeiIn sb ip src off n tot) n 0 0 with
    | .done tot | .next tot =>
      growTo ip (off + tot)
      iupdate sb ip
      return tot

/-! ## Directories -/

/-- One round of the loop of `dirlookup`. -/
def dirlookupAt (dp dev : Nat) (name : List UInt8) (off : Nat) :
    FsProg (Prog.Flow Unit (Nat × Nat)) := do
  let (r, bytes) ← readi sb dp off direntSize direntSize
  if r ≠ direntSize then .panic "dirlookup read"
  else
    let de := Dirent.decode bytes
    if de.inum = 0 then return .next ()
    else if namecmp name de.name = 0 then
      let ip ← iget dev de.inum
      return .done (ip, off)
    else return .next ()

/-- `dirlookup`; the second component is `*poff`. -/
def dirlookup (dp : Nat) (name : List UInt8) : FsProg (Option (Nat × Nat)) := do
  let slot ← inode dp
  if slot.node.type ≠ tDir then .panic "dirlookup not DIR"
  else
    match ← loop (fun i _ => dirlookupAt sb dp slot.dev name (i * direntSize))
        ((slot.node.size + direntSize - 1) / direntSize) 0 () with
    | .done found => return some found
    | .next () => return none

/-- One round of the loop of `dirlink` for an empty entry. -/
def dirlinkAt (dp off : Nat) : FsProg (Prog.Flow Unit Nat) := do
  let (r, bytes) ← readi sb dp off direntSize direntSize
  if r ≠ direntSize then .panic "dirlink read"
  else if (Dirent.decode bytes).inum = 0 then return .done off
  else return .next ()

/-- `dirlink` stores the new entry at `off`. -/
def dirlinkStore (dp : Nat) (name : List UInt8) (inum off : Nat) : FsProg Int := do
  let de : Dirent := { inum, name := strncpy name dirSiz }
  let r ← writei sb dp de.encode off direntSize
  if r ≠ direntSize then return -1 else return 0

def dirlink (dp : Nat) (name : List UInt8) (inum : Nat) : FsProg Int := do
  match ← dirlookup sb dp name with
  | some (ip, _) =>
    iput sb ip
    return -1
  | none =>
    let slot ← inode dp
    let count := (slot.node.size + direntSize - 1) / direntSize
    match ← loop (fun i _ => dirlinkAt sb dp (i * direntSize)) count 0 () with
    | .done off => dirlinkStore sb dp name inum off
    | .next () => dirlinkStore sb dp name inum (count * direntSize)

end Code

end Xv6.Fs
