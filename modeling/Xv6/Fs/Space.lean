import Xv6.Foundation.Allocation
import Xv6.Fs.Format

/-! # Who owns which block

The blocks of the disk and the inodes, without the programs that change them. An
inode lists its blocks in cells: the twelve direct addresses, the address of the
indirect block, and the entries of that block. The bitmap is right when the data
blocks it marks are those that some cell of some inode in use holds, each once, and
those that are lost: marked, and in no cell. No operation of the kernel is about the
lost ones, so that they are a parameter. -/

namespace Xv6.Fs


/-- The number of blocks in front of the data blocks. -/
def Superblock.nmeta (sb : Superblock) : Nat := sb.size - sb.nblocks

/-- The inode blocks come first, then the bitmap, then the data blocks. -/
structure Superblock.Ok (sb : Superblock) : Prop where
  inodes : ∀ inum < sb.ninodes, sb.iblock inum < sb.bmapstart
  bitmap : ∀ b < sb.size, sb.bblock b < sb.nmeta
  size : sb.size ≤ 2 ^ 32

/-- The bit of block `b` in the bitmap. -/
def used (sb : Superblock) (block : Nat → Block) (b : Nat) : Bool :=
  bit (block (sb.bblock b)) (b % bpb)

/-- A data block that is marked in the bitmap. -/
def Taken (sb : Superblock) (block : Nat → Block) (b : Nat) : Prop :=
  sb.nmeta ≤ b ∧ b < sb.size ∧ used sb block b = true

/-- The block number in cell `k`: an address, or an entry of the indirect block. -/
def Dinode.entry (din : Dinode) (block : Nat → Block) (k : Nat) : Nat :=
  if k ≤ ndirect then din.addr k
  else if din.addr ndirect = 0 then 0
  else (block (din.addr ndirect)).word 4 (k - (ndirect + 1))

/-- What a cell of an inode in use holds. -/
def cell (sb : Superblock) (block : Nat → Block) (node : Nat → Dinode) :
    Nat × Nat → Option Nat
  | (inum, k) =>
    if inum < sb.ninodes ∧ (node inum).type ≠ 0 ∧ (node inum).entry block k ≠ 0 then
      some ((node inum).entry block k)
    else none

/-- The bitmap is right. -/
structure Accounted (sb : Superblock) (lost : Set Nat) (block : Nat → Block)
    (node : Nat → Dinode) : Prop where
  reserved : ∀ b < sb.nmeta, used sb block b = true
  marked : ∀ b ∈ lost, Taken sb block b
  exact : Allocation (fun b => Taken sb block b ∧ b ∉ lost) (cell sb block node)

variable {inum : Nat}

section Geometry

variable {sb : Superblock} (ok : sb.Ok)

variable {b c : Nat}

theorem bblock_inj (same : sb.bblock b = sb.bblock c) (bit : b % bpb = c % bpb) : b = c := by
  have quotient : b / bpb = c / bpb := Nat.add_right_cancel same
  rw [← Nat.div_add_mod b bpb, ← Nat.div_add_mod c bpb, quotient, bit]

theorem mod_bpb_lt (b : Nat) : b % bpb < bpb := Nat.mod_lt b (by decide)

include ok

theorem bblock_ne (inside : c < sb.size) (data : sb.nmeta ≤ b) : sb.bblock c ≠ b :=
  Nat.ne_of_lt (Nat.lt_of_lt_of_le (ok.bitmap c inside) data)

theorem iblock_ne_bblock (valid : inum < sb.ninodes) : sb.iblock inum ≠ sb.bblock c := by
  have := ok.inodes inum valid
  have : sb.bmapstart ≤ sb.bblock c := Nat.le_add_left ..
  omega

theorem iblock_ne (valid : inum < sb.ninodes) (inside : b < sb.size) (data : sb.nmeta ≤ b) :
    sb.iblock inum ≠ b := by
  have := ok.inodes inum valid
  have : sb.bmapstart ≤ sb.bblock b := Nat.le_add_left ..
  have := ok.bitmap b inside
  omega

end Geometry

/-! ## The cells of an inode -/

variable {block' : Nat → Block} {node' : Nat → Dinode}

section Cells

variable {block : Nat → Block} {din : Dinode} {k : Nat}

theorem entry_of_le (low : k ≤ ndirect) : din.entry block k = din.addr k := if_pos low

theorem entry_indirect (j : Nat) (some : din.addr ndirect ≠ 0) :
    din.entry block (ndirect + 1 + j) = (block (din.addr ndirect)).word 4 j := by
  have high : ¬ ndirect + 1 + j ≤ ndirect := by omega
  rw [Dinode.entry, if_neg high, if_neg some, Nat.add_sub_cancel_left]

theorem entry_eq_zero (none : din.addr ndirect = 0) (high : ndirect < k) :
    din.entry block k = 0 := by
  rw [Dinode.entry, if_neg (by omega), if_pos none]

theorem entry_of_noAddr (zeros : ∀ i, din.addr i = 0) (k : Nat) : din.entry block k = 0 := by
  unfold Dinode.entry
  rw [zeros, zeros, if_pos rfl, ite_self]

theorem entry_outside (outside : maxFile < k) : din.entry block k = 0 := by
  have low : ndirect + 1 + nindirect ≤ k := by
    have : maxFile = ndirect + nindirect := rfl
    omega
  rw [Dinode.entry, if_neg (by omega)]
  split
  · rfl
  · have zeros : ∀ bytes : List UInt8, (∀ byte ∈ bytes, byte = 0) → Bytes.decode bytes = 0 := by
      intro bytes all
      induction bytes with
      | nil => rfl
      | cons byte rest induction =>
        rw [Bytes.decode, all byte List.mem_cons_self,
          induction fun other member => all other (List.mem_cons_of_mem _ member)]
        rfl
    apply zeros
    intro byte member
    rcases List.mem_map.mp member with ⟨i, _, rfl⟩
    apply dif_neg
    have : nindirect = 256 := rfl
    have : bsize = 1024 := rfl
    omega

variable {din' : Dinode}

theorem entry_congr_high (high : ndirect < k) (addr : din'.addr ndirect = din.addr ndirect)
    (same : din.addr ndirect ≠ 0 → block' (din.addr ndirect) = block (din.addr ndirect)) :
    din'.entry block' k = din.entry block k := by
  unfold Dinode.entry
  rw [if_neg (Nat.not_le.mpr high), if_neg (Nat.not_le.mpr high), addr]
  split
  · rfl
  · rename_i some
    rw [same some]

theorem entry_congr (addr : ∀ i, din'.addr i = din.addr i)
    (same : din.addr ndirect ≠ 0 → block' (din.addr ndirect) = block (din.addr ndirect)) (k : Nat) :
    din'.entry block' k = din.entry block k := by
  by_cases low : k ≤ ndirect
  · rw [entry_of_le low, entry_of_le low, addr]
  · exact entry_congr_high (Nat.not_le.mp low) (addr ndirect) same

variable {sb : Superblock} {node : Nat → Dinode} {inum b : Nat}

theorem cell_eq_some : cell sb block node (inum, k) = some b ↔
    inum < sb.ninodes ∧ (node inum).type ≠ 0 ∧ b ≠ 0 ∧ (node inum).entry block k = b := by
  rw [cell]
  constructor
  · intro equal
    split at equal
    · rename_i holds
      cases equal
      exact ⟨holds.1, holds.2.1, holds.2.2, rfl⟩
    · cases equal
  · intro holds
    rcases holds with ⟨valid, inUse, nonzero, rfl⟩
    exact if_pos ⟨valid, inUse, nonzero⟩

theorem cell_eq_none (zero : (node inum).entry block k = 0) :
    cell sb block node (inum, k) = none :=
  if_neg fun holds => holds.2.2 zero

theorem cell_eq_none_of_dead (dead : (node inum).type = 0) :
    cell sb block node (inum, k) = none :=
  if_neg fun holds => holds.2.1 dead

theorem cell_congr (type : (node' inum).type = (node inum).type)
    (entry : (node' inum).entry block' k = (node inum).entry block k) :
    cell sb block' node' (inum, k) = cell sb block node (inum, k) := by
  rw [cell, cell, type, entry]

theorem cell_eq_of_same (type : (node' inum).type = (node inum).type)
    (addr : ∀ i, (node' inum).addr i = (node inum).addr i)
    (indirect : inum < sb.ninodes → (node inum).type ≠ 0 → (node inum).addr ndirect ≠ 0 →
      block' ((node inum).addr ndirect) = block ((node inum).addr ndirect)) (k : Nat) :
    cell sb block' node' (inum, k) = cell sb block node (inum, k) := by
  by_cases live : inum < sb.ninodes ∧ (node inum).type ≠ 0
  · exact cell_congr type (entry_congr addr (indirect live.1 live.2) k)
  · rw [cell, cell, type, if_neg fun holds => live ⟨holds.1, holds.2.1⟩,
      if_neg fun holds => live ⟨holds.1, holds.2.1⟩]

theorem cell_eq_of_node (same : inum < sb.ninodes → node' inum = node inum)
    (indirect : inum < sb.ninodes → (node inum).type ≠ 0 → (node inum).addr ndirect ≠ 0 →
      block' ((node inum).addr ndirect) = block ((node inum).addr ndirect)) (k : Nat) :
    cell sb block' node' (inum, k) = cell sb block node (inum, k) := by
  by_cases valid : inum < sb.ninodes
  · have nodes := same valid
    exact cell_eq_of_same (congrArg Dinode.type nodes) (fun i => by rw [nodes]) indirect k
  · rw [cell, cell, if_neg fun holds => valid holds.1, if_neg fun holds => valid holds.1]

end Cells

namespace Accounted

variable {sb : Superblock} {lost : Set Nat} {block : Nat → Block} {node : Nat → Dinode}
  {inum b k : Nat}

theorem of_noBlocks (usedEq : ∀ b < sb.size, used sb block b = decide (b < sb.nmeta))
    (empty : ∀ inum < sb.ninodes, (node inum).type ≠ 0 → ∀ k, (node inum).entry block k = 0) :
    Accounted sb ∅ block node := by
  have noCell : ∀ place b, cell sb block node place ≠ some b := by
    intro place b found
    rcases place with ⟨inum, k⟩
    rcases cell_eq_some.mp found with ⟨valid, inUse, nonzero, same⟩
    exact nonzero (same.symm.trans (empty inum valid inUse k))
  constructor
  · intro b low
    rw [usedEq b (Nat.lt_of_lt_of_le low (Nat.sub_le ..)), decide_eq_true low]
  · exact fun b member => absurd member (Set.notMem_empty b)
  · constructor
    · exact fun found _ => absurd found (noCell _ _)
    · intro b
      constructor
      · intro holds
        have set := holds.1.2.2
        rw [usedEq b holds.1.2.1, decide_eq_true_iff] at set
        exact absurd holds.1.1 (Nat.not_le.mpr set)
      · intro found
        rcases found with ⟨place, found⟩
        exact absurd found (noCell place b)

section

variable (acc : Accounted sb lost block node)

include acc

theorem taken (valid : inum < sb.ninodes) (inUse : (node inum).type ≠ 0)
    (nonzero : (node inum).entry block k ≠ 0) : Taken sb block ((node inum).entry block k) :=
  (acc.exact.used_of (cell_eq_some.mpr ⟨valid, inUse, nonzero, rfl⟩)).1

theorem entry_inj (valid : inum < sb.ninodes) (inUse : (node inum).type ≠ 0)
    (valid' : inum' < sb.ninodes) (inUse' : (node inum').type ≠ 0)
    (nonzero : (node inum).entry block k ≠ 0)
    (same : (node inum).entry block k = (node inum').entry block k') : inum = inum' ∧ k = k' := by
  have first : cell sb block node (inum, k) = some ((node inum).entry block k) :=
    cell_eq_some.mpr ⟨valid, inUse, nonzero, rfl⟩
  have second : cell sb block node (inum', k') = some ((node inum).entry block k) :=
    cell_eq_some.mpr ⟨valid', inUse', nonzero, same.symm⟩
  have equal := acc.exact.unique first second
  exact ⟨congrArg Prod.fst equal, congrArg Prod.snd equal⟩

theorem free_data (free : used sb block b = false) : sb.nmeta ≤ b := by
  by_contra low
  have := acc.reserved b (Nat.not_le.mp low)
  rw [free] at this
  cases this

theorem free_ne_entry (free : used sb block b = false) (valid : inum < sb.ninodes)
    (inUse : (node inum).type ≠ 0) (nonzero : (node inum).entry block k ≠ 0) :
    (node inum).entry block k ≠ b := by
  intro same
  have := (acc.taken valid inUse nonzero).2.2
  rw [same, free] at this
  cases this

end

end Accounted

/-! ## Changes -/

/-- A new block is marked in the bitmap and filled with zeros. -/
def allocate (sb : Superblock) (block : Nat → Block) (b : Nat) : Nat → Block :=
  Function.update
    (Function.update block (sb.bblock b) (setBit (block (sb.bblock b)) (b % bpb))) b fun _ => 0

section Allocate

variable {sb : Superblock} {lost : Set Nat} {block : Nat → Block} {node : Nat → Dinode} {b c : Nat}

theorem allocate_self : allocate sb block b b = fun _ => 0 := Function.update_self ..

theorem allocate_of_ne (different : c ≠ b) (noBitmap : c ≠ sb.bblock b) :
    allocate sb block b c = block c := by
  rw [allocate, Function.update_of_ne different, Function.update_of_ne noBitmap]

variable {data : Block}

theorem used_update (bits : ∀ i, i ≠ b % bpb → bit data i = bit (block (sb.bblock b)) i)
    (different : c ≠ b) :
    used sb (Function.update block (sb.bblock b) data) c = used sb block c := by
  unfold used
  by_cases same : sb.bblock c = sb.bblock b
  · rw [same, Function.update_self]
    apply bits
    intro position
    exact different (bblock_inj same position)
  · rw [Function.update_of_ne same]

theorem used_setBlock (noBitmap : sb.bblock c ≠ b) :
    used sb (Function.update block b data) c = used sb block c := by
  rw [used, used, Function.update_of_ne noBitmap]

theorem taken_congr (usedEq : ∀ c < sb.size, used sb block' c = used sb block c) :
    Taken sb block' b ↔ Taken sb block b := by
  constructor <;> intro holds <;> refine ⟨holds.1, holds.2.1, ?_⟩
  · rw [← usedEq b holds.2.1]
    exact holds.2.2
  · rw [usedEq b holds.2.1]
    exact holds.2.2

theorem used_allocate (apart : sb.bblock c ≠ b) :
    used sb (allocate sb block b) c = (decide (c = b) || used sb block c) := by
  rw [allocate, used_setBlock apart]
  by_cases same : c = b
  · rw [same, used, Function.update_self, bit_setBit _ (mod_bpb_lt b)]
    simp
  · rw [used_update _ same]
    · simp [same]
    · intro i different
      rw [bit_setBit _ (mod_bpb_lt b)]
      simp [different]

theorem taken_allocate (ok : sb.Ok) (data : sb.nmeta ≤ b) (inside : b < sb.size) :
    Taken sb (allocate sb block b) c ↔ c = b ∨ Taken sb block c := by
  constructor
  · intro holds
    rcases holds with ⟨low, high, set⟩
    rw [used_allocate (bblock_ne ok high data), Bool.or_eq_true, decide_eq_true_iff] at set
    exact set.imp id fun before => ⟨low, high, before⟩
  · intro holds
    rcases holds with same | before
    · subst same
      refine ⟨data, inside, ?_⟩
      rw [used_allocate (bblock_ne ok inside data)]
      simp
    · refine ⟨before.1, before.2.1, ?_⟩
      rw [used_allocate (bblock_ne ok before.2.1 data), before.2.2, Bool.or_true]

theorem Accounted.assign (acc : Accounted sb lost block node) (ok : sb.Ok)
    (free : used sb block b = false) (inside : b < sb.size) (valid : inum < sb.ninodes)
    (inUse : (node inum).type ≠ 0) (empty : (node inum).entry block k = 0)
    (usedEq : ∀ c < sb.size, used sb block' c = used sb (allocate sb block b) c)
    (others : ∀ j, j ≠ inum → j < sb.ninodes → node' j = node j)
    (indirect : ∀ j, j ≠ inum → j < sb.ninodes → (node j).type ≠ 0 → (node j).addr ndirect ≠ 0 →
      block' ((node j).addr ndirect) = block ((node j).addr ndirect))
    (type : (node' inum).type = (node inum).type) (here : (node' inum).entry block' k = b)
    (elsewhere : ∀ i, i ≠ k → (node' inum).entry block' i = (node inum).entry block i) :
    Accounted sb lost block' node' := by
  have data := acc.free_data free
  have notTaken : ¬ Taken sb block b := by
    intro holds
    rw [Taken, free] at holds
    exact Bool.false_ne_true holds.2.2
  have takenEq : ∀ c, Taken sb block' c ↔ c = b ∨ Taken sb block c := by
    intro c
    rw [← taken_allocate ok data inside]
    exact taken_congr usedEq
  constructor
  · intro c low
    have small : c < sb.size := Nat.lt_of_lt_of_le low (Nat.sub_le ..)
    rw [usedEq c small, used_allocate (bblock_ne ok small data), acc.reserved c low, Bool.or_true]
  · intro c member
    exact (takenEq c).mpr (.inr (acc.marked c member))
  · apply acc.exact.assign (inum, k) b (cell_eq_none empty)
    · exact fun holds => notTaken holds.1
    · intro c
      rw [takenEq]
      constructor
      · intro holds
        exact holds.1.imp id fun taken => ⟨taken, holds.2⟩
      · intro holds
        rcases holds with same | before
        · rw [same]
          exact ⟨.inl rfl, fun member => notTaken (acc.marked b member)⟩
        · exact ⟨.inr before.1, before.2⟩
    · rw [cell_eq_some, type]
      refine ⟨valid, inUse, ?_, here⟩
      intro zero
      have low : sb.nmeta ≤ 0 := zero ▸ data
      have := ok.bitmap b inside
      omega
    · intro place different
      rcases place with ⟨j, i⟩
      by_cases same : j = inum
      · subst same
        apply cell_congr type
        apply elsewhere
        intro equal
        exact different (congrArg (Prod.mk j) equal)
      · exact cell_eq_of_node (others j same) (indirect j same) i

end Allocate

/-- A block is no longer marked in the bitmap. -/
def unmark (sb : Superblock) (block : Nat → Block) (b : Nat) : Nat → Block :=
  Function.update block (sb.bblock b) (clearBit (block (sb.bblock b)) (b % bpb))

section Free

variable {sb : Superblock} {lost : Set Nat} {block block' : Nat → Block}
  {node node' : Nat → Dinode} {b c : Nat}

theorem unmark_of_ne (noBitmap : c ≠ sb.bblock b) : unmark sb block b c = block c :=
  Function.update_of_ne noBitmap ..

theorem used_unmark : used sb (unmark sb block b) c = (!decide (c = b) && used sb block c) := by
  by_cases same : c = b
  · rw [same, used, unmark, Function.update_self, bit_clearBit _ (mod_bpb_lt b)]
    simp
  · rw [unmark, used_update _ same]
    · simp [same]
    · intro i different
      rw [bit_clearBit _ (mod_bpb_lt b)]
      simp [different]

section

variable (acc : Accounted sb lost block node)
  (usedEq : ∀ c < sb.size, used sb block' c = used sb block c)

include acc usedEq

theorem Accounted.congr (cellEq : ∀ place, cell sb block' node' place = cell sb block node place) :
    Accounted sb lost block' node' := by
  constructor
  · intro c low
    rw [usedEq c (Nat.lt_of_lt_of_le low (Nat.sub_le ..))]
    exact acc.reserved c low
  · intro c member
    exact (taken_congr usedEq).mpr (acc.marked c member)
  · apply acc.exact.congr _ cellEq
    intro c
    rw [taken_congr usedEq]

theorem Accounted.replace (others : ∀ j, j ≠ inum → j < sb.ninodes → node' j = node j)
    (indirect : ∀ j, j ≠ inum → j < sb.ninodes → (node j).type ≠ 0 → (node j).addr ndirect ≠ 0 →
      block' ((node j).addr ndirect) = block ((node j).addr ndirect))
    (before : ∀ k, cell sb block node (inum, k) = none)
    (after : ∀ k, cell sb block' node' (inum, k) = none) : Accounted sb lost block' node' := by
  apply acc.congr usedEq
  intro place
  rcases place with ⟨j, k⟩
  by_cases same : j = inum
  · rw [same, before, after]
  · exact cell_eq_of_node (others j same) (indirect j same) k

end

theorem Accounted.clear (acc : Accounted sb lost block node) (valid : inum < sb.ninodes)
    (inUse : (node inum).type ≠ 0) (cells : Set Nat)
    (usedEq : ∀ c < sb.size, used sb block' c = true ↔ used sb block c = true ∧
      ∀ k ∈ cells, (node inum).entry block k ≠ 0 → (node inum).entry block k ≠ c)
    (others : ∀ j, j ≠ inum → j < sb.ninodes → node' j = node j)
    (indirect : ∀ j, j ≠ inum → j < sb.ninodes → (node j).type ≠ 0 → (node j).addr ndirect ≠ 0 →
      block' ((node j).addr ndirect) = block ((node j).addr ndirect))
    (type : (node' inum).type = (node inum).type)
    (here : ∀ k ∈ cells, (node' inum).entry block' k = 0)
    (elsewhere : ∀ k, k ∉ cells → (node' inum).entry block' k = (node inum).entry block k) :
    Accounted sb lost block' node' := by
  constructor
  · intro c low
    rw [usedEq c (Nat.lt_of_lt_of_le low (Nat.sub_le ..))]
    refine ⟨acc.reserved c low, fun k _ nonzero same => ?_⟩
    have data := (acc.taken valid inUse nonzero).1
    omega
  · -- A lost block is in no cell.
    intro c member
    have taken := acc.marked c member
    refine ⟨taken.1, taken.2.1, (usedEq c taken.2.1).mpr ⟨taken.2.2, fun k _ nonzero same => ?_⟩⟩
    have owned := acc.exact.used_of (cell_eq_some.mpr ⟨valid, inUse, nonzero, rfl⟩)
    rw [same] at owned
    exact owned.2 member
  · apply acc.exact.clear { place | place.1 = inum ∧ place.2 ∈ cells }
    · intro c
      constructor
      · intro both
        rcases both with ⟨holds, notLost⟩
        rcases (usedEq c holds.2.1).mp holds.2.2 with ⟨before, outside⟩
        refine ⟨⟨⟨holds.1, holds.2.1, before⟩, notLost⟩, fun place member found => ?_⟩
        rcases place with ⟨j, k⟩
        rcases member with ⟨same, member⟩
        cases same
        rw [cell_eq_some] at found
        exact outside k member (found.2.2.2 ▸ found.2.2.1) found.2.2.2
      · intro holds
        rcases holds with ⟨⟨⟨low, high, before⟩, notLost⟩, outside⟩
        refine ⟨⟨low, high, (usedEq c high).mpr ⟨before, fun k member nonzero same => ?_⟩⟩, notLost⟩
        apply outside (inum, k) ⟨rfl, member⟩
        rw [cell_eq_some]
        exact ⟨valid, inUse, same ▸ nonzero, same⟩
    · intro place member
      rcases place with ⟨j, k⟩
      rcases member with ⟨same, member⟩
      cases same
      exact cell_eq_none (here k member)
    · intro place outside
      rcases place with ⟨j, k⟩
      by_cases same : j = inum
      · subst same
        exact cell_congr type (elsewhere k fun member => outside ⟨rfl, member⟩)
      · exact cell_eq_of_node (others j same) (indirect j same) k

end Free

end Xv6.Fs
