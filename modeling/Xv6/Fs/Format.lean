import Xv6.Log.Header
import Mathlib.Data.List.OfFn

/-! # The on-disk format: `kernel/fs.h`

The superblock, the inodes, the bitmap of the used blocks and the directory
entries, as bytes of disk blocks. -/

namespace Xv6.Fs

def ndirect : Nat := 12

def nindirect : Nat := bsize / 4

def maxFile : Nat := ndirect + nindirect

/-- `IPB`: inodes per block. -/
def ipb : Nat := bsize / 64

/-- `BPB`: bitmap bits per block. -/
def bpb : Nat := bsize * 8

def dirSiz : Nat := 14

/-- `sizeof(struct dirent)`. -/
def direntSize : Nat := 16

def rootIno : Nat := 1

def tDir : Nat := 1

/-- `struct superblock`. -/
structure Superblock where
  magic : Nat
  size : Nat
  nblocks : Nat
  ninodes : Nat
  nlog : Nat
  logstart : Nat
  inodestart : Nat
  bmapstart : Nat
  deriving DecidableEq

/-- `IBLOCK(i, sb)`. -/
def Superblock.iblock (sb : Superblock) (i : Nat) : Nat := i / ipb + sb.inodestart

/-- `BBLOCK(b, sb)`. -/
def Superblock.bblock (sb : Superblock) (b : Nat) : Nat := b / bpb + sb.bmapstart

/-! ## Inodes -/

/-- `struct dinode`. The first four fields are the bits of a `short`. -/
@[ext] structure Dinode where
  type : Nat
  major : Nat
  minor : Nat
  nlink : Nat
  size : Nat
  addrs : Fin (ndirect + 1) → Nat

namespace Dinode

/-- `dip->addrs[k]`. -/
def addr (din : Dinode) (k : Nat) : Nat :=
  if inside : k < ndirect + 1 then din.addrs ⟨k, inside⟩ else 0

/-- `dip->addrs[k] = b`. -/
def setAddr (din : Dinode) (k b : Nat) : Dinode :=
  { din with addrs := fun i => if i.val = k then b else din.addrs i }

/-- What `memset(dip, 0, sizeof(*dip))` leaves. -/
def zero : Dinode :=
  { type := 0, major := 0, minor := 0, nlink := 0, size := 0, addrs := fun _ => 0 }

/-- The bits of every field fit into the field. -/
structure Fits (din : Dinode) : Prop where
  type : din.type < 2 ^ 16
  major : din.major < 2 ^ 16
  minor : din.minor < 2 ^ 16
  nlink : din.nlink < 2 ^ 16
  size : din.size < 2 ^ 32
  addr : ∀ k, din.addr k < 2 ^ 32

def shorts (din : Dinode) : List Nat := [din.type, din.major, din.minor, din.nlink]

def longs (din : Dinode) : List Nat := din.size :: List.ofFn din.addrs

/-- The 64 bytes of the structure. -/
def encode (din : Dinode) : List UInt8 :=
  Bytes.encodeAll 2 din.shorts ++ Bytes.encodeAll 4 din.longs

/-- The inode in slot `i` of an inode block. -/
def read (block : Block) (i : Nat) : Dinode where
  type := block.word 2 (32 * i)
  major := block.word 2 (32 * i + 1)
  minor := block.word 2 (32 * i + 2)
  nlink := block.word 2 (32 * i + 3)
  size := block.word 4 (16 * i + 2)
  addrs := fun k => block.word 4 (16 * i + 3 + k)

/-- Store an inode in slot `i` of an inode block. -/
def write (block : Block) (i : Nat) (din : Dinode) : Block :=
  block.write (64 * i) din.encode

variable {k : Nat}

@[simp] theorem addr_setAddr_self (din : Dinode) (inside : k < ndirect + 1) (b : Nat) :
    (din.setAddr k b).addr k = b := by
  simp [addr, setAddr, inside]

theorem addr_setAddr_of_ne (din : Dinode) (different : other ≠ k) (b : Nat) :
    (din.setAddr k b).addr other = din.addr other := by
  simp [addr, setAddr, different]

theorem addr_eq_zero_of_le (din : Dinode) (outside : ndirect + 1 ≤ k) : din.addr k = 0 :=
  dif_neg (Nat.not_lt.mpr outside)

@[simp] theorem addr_zero (k : Nat) : zero.addr k = 0 := by
  unfold addr
  split <;> rfl

theorem ext_addr {first second : Dinode} (type : first.type = second.type)
    (major : first.major = second.major) (minor : first.minor = second.minor)
    (nlink : first.nlink = second.nlink) (size : first.size = second.size)
    (addr : ∀ k, first.addr k = second.addr k) : first = second := by
  apply Dinode.ext type major minor nlink size
  funext k
  have equal := addr k
  simp only [Dinode.addr, k.isLt, dif_pos] at equal
  exact equal

@[simp] theorem encode_length (din : Dinode) : din.encode.length = 64 := by
  simp only [encode, shorts, longs, List.length_append, Bytes.encodeAll_length,
    List.length_cons, List.length_ofFn, List.length_nil]
  rfl

theorem read_fits (block : Block) (i : Nat) : (read block i).Fits where
  type := Bytes.word_lt ..
  major := Bytes.word_lt ..
  minor := Bytes.word_lt ..
  nlink := Bytes.word_lt ..
  size := Bytes.word_lt ..
  addr := by
    intro k
    unfold addr
    split
    · exact Bytes.word_lt ..
    · exact Nat.two_pow_pos 32

variable {i : Nat}

theorem word_write_short (block : Block) (inside : i < ipb) (din : Dinode) (short : k < 4) :
    (write block i din).word 2 (32 * i + k) = din.shorts[k] % 2 ^ 16 := by
  have bound : 64 * i + 64 ≤ bsize := by
    have : i < 16 := inside
    have : bsize = 1024 := rfl
    omega
  have position : 2 * (32 * i + k) = 64 * i + 2 * k := by ring
  rw [Bytes.word, write, position,
    Bytes.read_write_within _ _ _ (by rw [encode_length]; omega) (by rw [encode_length]; omega),
    encode, List.drop_append_of_le_length (by simp [shorts]; omega),
    List.take_append_of_le_length (by simp [shorts]; omega),
    Bytes.encodeAll_window 2 short, Bytes.decode_encode]
  rfl

theorem word_write_long (block : Block) (inside : i < ipb) (din : Dinode)
    (short : k < din.longs.length) :
    (write block i din).word 4 (16 * i + 2 + k) = din.longs[k] % 2 ^ 32 := by
  have bound : 64 * i + 64 ≤ bsize := by
    have : i < 16 := inside
    have : bsize = 1024 := rfl
    omega
  have length : din.longs.length = 14 := by
    rw [longs, List.length_cons, List.length_ofFn]
    rfl
  have eight : (Bytes.encodeAll 2 din.shorts).length = 8 := by simp [shorts]
  have position : 4 * (16 * i + 2 + k) = 64 * i + (8 + 4 * k) := by ring
  rw [Bytes.word, write, position,
    Bytes.read_write_within _ _ _ (by rw [encode_length]; omega) (by rw [encode_length]; omega),
    encode, ← eight, ← List.drop_drop, List.drop_left, Bytes.encodeAll_window 4 short,
    Bytes.decode_encode]
  rfl

theorem read_write_same (block : Block) (inside : i < ipb) {din : Dinode} (fits : din.Fits) :
    read (write block i din) i = din := by
  have short : ∀ k (bound : k < 4), (write block i din).word 2 (32 * i + k) =
      din.shorts[k] % 2 ^ 16 := fun k bound => word_write_short block inside din bound
  apply ext_addr
  · exact (short 0 (by decide)).trans (Nat.mod_eq_of_lt fits.type)
  · exact (short 1 (by decide)).trans (Nat.mod_eq_of_lt fits.major)
  · exact (short 2 (by decide)).trans (Nat.mod_eq_of_lt fits.minor)
  · exact (short 3 (by decide)).trans (Nat.mod_eq_of_lt fits.nlink)
  · have long := word_write_long block inside din (k := 0) (by simp [longs])
    exact long.trans (Nat.mod_eq_of_lt fits.size)
  · intro k
    have small := fits.addr k
    unfold addr at small ⊢
    split
    · rename_i inRange
      have long := word_write_long block inside din (k := k + 1) (by simpa [longs] using inRange)
      rw [dif_pos inRange] at small
      have position : 16 * i + 3 + k = 16 * i + 2 + (k + 1) := by ring
      simp only [longs, List.getElem_cons_succ, List.getElem_ofFn] at long
      rw [Nat.mod_eq_of_lt small, ← position] at long
      exact long
    · rfl

theorem read_write_ne (block : Block) (different : j ≠ i) (din : Dinode) :
    read (write block i din) j = read block j := by
  have kept : ∀ width index, 64 * i + 64 ≤ width * index ∨ width * index + width ≤ 64 * i →
      (write block i din).word width index = block.word width index := by
    intro width index disjoint
    apply Bytes.word_write_disjoint
    rw [encode_length]
    exact disjoint
  apply Dinode.ext
  · exact kept 2 _ (by omega)
  · exact kept 2 _ (by omega)
  · exact kept 2 _ (by omega)
  · exact kept 2 _ (by omega)
  · exact kept 4 _ (by omega)
  · funext k
    have bound : k.val < 13 := k.isLt
    exact kept 4 _ (by omega)

end Dinode

/-! ## The bitmap -/

/-- `1 << (bi % 8)`. -/
def mask (bi : Nat) : UInt8 := 1 <<< UInt8.ofNat (bi % 8)

/-- `bp->data[bi/8] & m` is not zero. -/
def bit (block : Block) (bi : Nat) : Bool := block.byteAt (bi / 8) &&& mask bi != 0

/-- `bp->data[bi/8] |= m`. -/
def setBit (block : Block) (bi : Nat) : Block :=
  block.write (bi / 8) [block.byteAt (bi / 8) ||| mask bi]

/-- `bp->data[bi/8] &= ~m`. -/
def clearBit (block : Block) (bi : Nat) : Block :=
  block.write (bi / 8) [block.byteAt (bi / 8) &&& ~~~mask bi]

theorem and_mask_ne_zero (byte : UInt8) (bi : Nat) :
    (byte &&& mask bi != 0) = byte.toBitVec.getLsbD (bi % 8) := by
  have all : ∀ k < 8, ∀ bits : BitVec 8,
      (UInt8.ofBitVec bits &&& 1 <<< UInt8.ofNat k != 0) = bits.getLsbD k := by decide +kernel
  exact all (bi % 8) (Nat.mod_lt bi (by decide)) byte.toBitVec

theorem mask_getLsbD (bi k : Nat) (small : k < 8) :
    (mask bi).toBitVec.getLsbD k = decide (k = bi % 8) := by
  have all : ∀ j < 8, ∀ k < 8,
      (1 <<< UInt8.ofNat j : UInt8).toBitVec.getLsbD k = decide (k = j) := by decide +kernel
  exact all (bi % 8) (Nat.mod_lt bi (by decide)) k small

variable {bi : Nat}

theorem bit_write (block : Block) (inside : bi < bpb) (byte : UInt8) (other : Nat) :
    bit (block.write (bi / 8) [byte]) other =
      if other / 8 = bi / 8 then byte.toBitVec.getLsbD (other % 8) else bit block other := by
  unfold bit
  rw [and_mask_ne_zero, and_mask_ne_zero]
  split
  · rename_i same
    have fits : bi / 8 < bsize := by
      have : bi < 8192 := inside
      have : bsize = 1024 := rfl
      omega
    rw [same, Bytes.byteAt_write_inside _ _ fits (Nat.le_refl _) (by simp), Nat.sub_self]
    rfl
  · rename_i different
    rw [Bytes.byteAt_write_outside]
    simp only [List.length_singleton]
    omega

theorem bit_setBit (block : Block) (inside : bi < bpb) (other : Nat) :
    bit (setBit block bi) other = (decide (other = bi) || bit block other) := by
  rw [setBit, bit_write block inside]
  split
  · rename_i same
    have position : other % 8 = bi % 8 ↔ other = bi := by omega
    rw [bit, and_mask_ne_zero, same, UInt8.toBitVec_or, BitVec.getLsbD_or,
      mask_getLsbD bi _ (Nat.mod_lt _ (by decide)), Bool.or_comm]
    simp only [position]
  · rename_i different
    have : other ≠ bi := fun equal => different (congrArg (· / 8) equal)
    simp [this]

theorem bit_clearBit (block : Block) (inside : bi < bpb) (other : Nat) :
    bit (clearBit block bi) other = (!decide (other = bi) && bit block other) := by
  rw [clearBit, bit_write block inside]
  split
  · rename_i same
    have position : other % 8 = bi % 8 ↔ other = bi := by omega
    have small : other % 8 < 8 := Nat.mod_lt _ (by decide)
    rw [bit, and_mask_ne_zero, same, UInt8.toBitVec_and, UInt8.toBitVec_not, BitVec.getLsbD_and,
      BitVec.getLsbD_not, mask_getLsbD bi _ small, Bool.and_comm]
    simp only [position, small, decide_true, Bool.true_and]
  · rename_i different
    have : other ≠ bi := fun equal => different (congrArg (· / 8) equal)
    simp [this]

/-! ## Directory entries -/

/-- `struct dirent`. -/
structure Dirent where
  inum : Nat
  name : List UInt8
  deriving DecidableEq

/-- The entry whose 16 bytes are given. -/
def Dirent.decode (bytes : List UInt8) : Dirent :=
  { inum := Bytes.decode (bytes.take 2), name := bytes.drop 2 }

def Dirent.encode (de : Dirent) : List UInt8 := Bytes.encode 2 de.inum ++ de.name

theorem Dirent.decode_encode {de : Dirent} (small : de.inum < 2 ^ 16) :
    Dirent.decode de.encode = de := by
  rw [Dirent.decode, Dirent.encode, List.take_left' (Bytes.encode_length ..),
    List.drop_left' (Bytes.encode_length ..), Bytes.decode_encode_of_lt small]

end Xv6.Fs
