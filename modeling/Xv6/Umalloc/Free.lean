import Xv6.Umalloc.Blocks

/-! # `free` puts a block into the free list -/

namespace Xv6.Umalloc

open Function (update update_self update_of_ne update_apply)

def links (mem : Mem) (p : Nat) : Nat := (mem p).ptr

abbrev addrs (blocks : List Block) : List Nat := blocks.map Block.addr

/-- The free list: it leads from `base` through the free blocks in increasing order back
to `base`, and no block ends where the next one starts. -/
structure Ring (base : Nat) (mem : Mem) (blocks : List Block) : Prop where
  walk : Walk (links mem) base (addrs blocks) base
  baseSize : (mem base).size = 0
  sizes : ∀ block ∈ blocks, (mem block.addr).size = block.units
  positive : ∀ block ∈ blocks, 0 < block.units
  apart : blocks.Pairwise fun a b => a.stop < b.addr
  above : ∀ block ∈ blocks, base + headerBytes ≤ block.addr

namespace Ring

variable {base : Nat} {mem : Mem} {blocks : List Block}

theorem sorted (ring : Ring base mem blocks) : (base :: addrs blocks).Pairwise (· < ·) := by
  apply List.Pairwise.cons
  · intro addr member
    rcases List.mem_map.mp member with ⟨block, inside, equal⟩
    have above := ring.above block inside
    rw [← equal]
    rw [headerBytes] at above
    omega
  · rw [List.pairwise_map]
    apply ring.apart.imp
    intro a b apart
    rw [Block.stop] at apart
    omega

theorem nodup (ring : Ring base mem blocks) : (base :: addrs blocks).Nodup :=
  ring.sorted.imp Nat.ne_of_lt

end Ring

/-! ## The loop of `free` -/

section Place

variable {base : Nat} {mem : Mem} {bp : Nat}

variable {fuel s : Nat}

theorem findPlace_continue (link : links mem s = next) (low : s < bp → next ≤ bp ∧ s < next)
    (high : bp ≤ s → next ≤ s → ¬ bp < next) :
    findPlace mem bp (fuel + 1) s = findPlace mem bp fuel next := by
  rw [links] at link
  rw [findPlace, link, if_neg (by omega), if_neg (by omega)]

variable {left : List Nat}

theorem findPlace_up (walk : Walk (links mem) s left q) (sorted : (s :: left).Pairwise (· < ·))
    (low : ∀ a ∈ s :: left, a < bp) (stop : bp < q ∨ q ≤ Walk.lastNode s left)
    (enough : left.length < fuel) : findPlace mem bp fuel s = some (Walk.lastNode s left) := by
  induction left generalizing s fuel with
  | nil =>
    cases fuel with
    | zero => cases enough
    | succ fuel =>
      have link : (mem s).ptr = q := walk
      have here := low s List.mem_cons_self
      have last : Walk.lastNode s [] = s := rfl
      rw [last] at stop ⊢
      rw [findPlace, link]
      by_cases between : s < bp ∧ bp < q
      · rw [if_pos between]
      · rw [if_neg between, if_pos (by omega)]
  | cons a left induction =>
    cases fuel with
    | zero => cases enough
    | succ fuel =>
      rw [List.length_cons] at enough
      rw [List.pairwise_cons] at sorted
      have next := low a (List.mem_cons_of_mem _ List.mem_cons_self)
      have up := sorted.1 a List.mem_cons_self
      rw [Walk.lastNode, List.getLastD_cons] at stop ⊢
      rw [findPlace_continue walk.1 (by omega) (by omega)]
      exact induction walk.2 sorted.2 (fun b member => low b (List.mem_cons_of_mem _ member))
        stop (by omega)

theorem findPlace_over (walk : Walk (links mem) s left base) (sorted : (s :: left).Pairwise (· < ·))
    (high : ∀ a ∈ s :: left, bp < a) (low : base < bp) (fuel : Nat) :
    findPlace mem bp (fuel + left.length + 1) s = findPlace mem bp fuel base := by
  induction left generalizing s with
  | nil =>
    have here := high s List.mem_cons_self
    exact findPlace_continue walk (by omega) (by omega)
  | cons a left induction =>
    rw [List.pairwise_cons] at sorted
    have here := high s List.mem_cons_self
    have up := sorted.1 a List.mem_cons_self
    rw [List.length_cons, ← Nat.add_assoc, findPlace_continue walk.1 (by omega) (by omega)]
    exact induction walk.2 sorted.2 fun b member => high b (List.mem_cons_of_mem _ member)

theorem findPlace_eq {below above : List Nat} (walk : Walk (links mem) base (below ++ above) base)
    (sorted : (base :: (below ++ above)).Pairwise (· < ·)) (low : ∀ a ∈ base :: below, a < bp)
    (high : ∀ a ∈ above, bp < a) (member : s ∈ base :: (below ++ above))
    (enough : (below ++ above).length + 1 < fuel) :
    findPlace mem bp fuel s = some (Walk.lastNode base below) := by
  have baseLow := low base List.mem_cons_self
  have lowSorted : (base :: below).Pairwise (· < ·) :=
    sorted.sublist (List.sublist_append_left (base :: below) above)
  -- Where the walk below the block ends: at the first node above, or at `base`.
  have ends : ∃ q, Walk (links mem) base below q ∧ (bp < q ∨ q ≤ Walk.lastNode base below) := by
    cases above with
    | nil =>
      rw [List.append_nil] at walk
      refine ⟨base, walk, .inr ?_⟩
      rcases List.mem_cons.mp (Walk.lastNode_mem base below) with equal | inside
      · exact Nat.le_of_eq equal.symm
      · exact Nat.le_of_lt ((List.pairwise_cons.mp lowSorted).1 _ inside)
    | cons b above =>
      exact ⟨b, (Walk.append_iff.mp walk).1, .inl (high b List.mem_cons_self)⟩
  rcases ends with ⟨q, walkBelow, stop⟩
  rw [List.length_append] at enough
  rcases List.mem_append.mp (show s ∈ (base :: below) ++ above from member) with isLow | isHigh
  · rcases List.mem_cons.mp isLow with equal | inside
    · rw [equal]
      exact findPlace_up walkBelow lowSorted low stop (by omega)
    · rcases List.append_of_mem inside with ⟨passed, left, split⟩
      have last : Walk.lastNode base below = Walk.lastNode s left := by
        rw [split, Walk.lastNode, Walk.lastNode]
        simp [List.getLast?_cons]
      rw [split] at walkBelow lowSorted low enough
      rw [last] at stop ⊢
      apply findPlace_up (Walk.append_iff.mp walkBelow).2 _ _ stop
      · simp only [List.length_append, List.length_cons] at enough
        omega
      · exact lowSorted.sublist ((List.sublist_append_right passed (s :: left)).cons base)
      · intro a later
        exact low a (List.mem_cons_of_mem _ (List.mem_append_right _ later))
  · rcases List.append_of_mem isHigh with ⟨passed, left, split⟩
    rw [split] at walk sorted high enough
    rw [← List.append_assoc] at walk sorted
    have walkAbove := (Walk.append_iff.mp walk).2
    simp only [List.length_append, List.length_cons] at enough
    obtain ⟨rest, equal⟩ : ∃ rest, fuel = rest + left.length + 1 :=
      ⟨fuel - left.length - 1, by omega⟩
    rw [equal, findPlace_over walkAbove _ _ baseLow]
    · exact findPlace_up walkBelow lowSorted low stop (by omega)
    · exact sorted.sublist ((List.sublist_append_right (below ++ passed) (s :: left)).cons base)
    · intro a later
      exact high a (List.mem_append_right _ later)

end Place

/-! ## Joining blocks -/

section Join

variable {base : Nat} {mem : Mem} {block : Block} {below above : List Block}

theorem uint_eq (small : n < 2 ^ 32) : uint n = n := Nat.mod_eq_of_lt small

theorem links_update (mem : Mem) (addr : Nat) (header : Header) :
    links (update mem addr header) = update (links mem) addr header.ptr := by
  funext p
  simp only [links, update_apply]
  split <;> rfl

/-- What the first `if` of `free` makes of the block and the blocks above it. -/
structure JoinedNext (base : Nat) (mem : Mem) (block : Block) (above : List Block)
    (after : Mem) (grown : Block) (rest : List Block) : Prop where
  addr : grown.addr = block.addr
  units : block.units ≤ grown.units
  sublist : rest.Sublist above
  walk : Walk (links after) block.addr (addrs rest) base
  size : (after block.addr).size = grown.units
  same : ∀ p, p ≠ block.addr → after p = mem p
  gap : ∀ other ∈ rest, grown.stop < other.addr
  cover : ∀ x, grown.covers x + cover rest x = block.covers x + cover above x
  total : grown.units + totalUnits rest = block.units + totalUnits above

theorem joinNext_eq (walk : Walk (links mem) p (addrs above) base)
    (size : (mem block.addr).size = block.units) (positive : 0 < block.units)
    (low : base < block.addr) (high : ∀ other ∈ above, block.stop ≤ other.addr)
    (sizes : ∀ other ∈ above, (mem other.addr).size = other.units)
    (apart : above.Pairwise fun a b => a.stop < b.addr)
    (small : block.units + totalUnits above < 2 ^ 32) :
    ∃ grown rest, JoinedNext base mem block above (joinNext mem block.addr (mem p).ptr)
      grown rest := by
  have stop : block.addr < block.stop := by
    rw [Block.stop, headerBytes]
    omega
  have outside : ∀ addr ∈ addrs above, addr ≠ block.addr := by
    intro addr member equal
    rcases List.mem_map.mp member with ⟨other, inside, same⟩
    have far := high other inside
    omega
  have linked : links (update mem block.addr { mem block.addr with ptr := (mem p).ptr }) =
      update (links mem) block.addr (links mem p) := links_update _ _ _
  have end_ : block.addr + headerBytes * (mem block.addr).size = block.stop := by
    rw [size, Block.stop]
  by_cases join : block.stop = (mem p).ptr
  · cases above with
    | nil =>
      have toBase : (mem p).ptr = base := walk
      omega
    | cons first rest =>
      have toFirst : (mem p).ptr = first.addr := walk.1
      rw [List.pairwise_cons] at apart
      rw [totalUnits_cons] at small
      have firstSize := sizes first List.mem_cons_self
      refine ⟨⟨block.addr, block.units + first.units⟩, rest, ?_⟩
      have joined : joinNext mem block.addr (mem p).ptr = update mem block.addr
          ⟨links mem first.addr, block.units + first.units⟩ := by
        rw [joinNext, end_, if_pos join, size, toFirst, firstSize, uint_eq (by omega)]
        rfl
      rw [joined]
      constructor
      · rfl
      · exact Nat.le_add_right _ _
      · exact List.sublist_cons_self _ _
      · rw [links_update]
        apply walk.2.restart
        · rw [update_self]
        · intro node member
          rw [update_of_ne (outside node (List.mem_cons_of_mem _ member))]
      · rw [update_self]
      · intro p different
        rw [update_of_ne different]
      · intro other member
        have far := apart.1 other member
        simp only [Block.stop, headerBytes] at far join ⊢
        omega
      · intro x
        rw [covers_split, cover_cons]
        have here : block.addr + headerBytes * block.units = first.addr := by
          rw [← toFirst, ← join, Block.stop]
        rw [here]
        show block.covers x + first.covers x + _ = _
        omega
      · rw [totalUnits_cons]
        show block.units + first.units + _ = _
        omega
  · refine ⟨block, above, ?_⟩
    have linkedTo : joinNext mem block.addr (mem p).ptr = update mem block.addr
        { mem block.addr with ptr := (mem p).ptr } := by
      rw [joinNext, end_, if_neg join]
    rw [linkedTo]
    constructor
    · rfl
    · exact Nat.le_refl _
    · exact List.Sublist.refl _
    · rw [linked]
      apply walk.restart
      · rw [update_self]
      · intro node member
        rw [update_of_ne (outside node member)]
    · rw [update_self]
      exact size
    · intro p different
      rw [update_of_ne different]
    · intro other member
      have far := high other member
      have different : block.stop ≠ other.addr := by
        intro equal
        cases above with
        | nil => cases member
        | cons first rest =>
          have toFirst : (mem p).ptr = first.addr := walk.1
          rcases List.mem_cons.mp member with same | later
          · rw [same] at equal
            omega
          · have between := (List.pairwise_cons.mp apart).1 other later
            have near := high first List.mem_cons_self
            simp only [Block.stop] at between near equal
            omega
      omega
    · intro x
      rfl
    · rfl

/-- The free list with a block put into it. -/
structure Inserted (base : Nat) (mem : Mem) (blocks : List Block) (block : Block) (after : Mem)
    (p : Nat) (result : List Block) : Prop where
  ring : Ring base after result
  place : p ∈ base :: addrs result
  same : ∀ q, q ≠ block.addr → q ∉ base :: addrs blocks → after q = mem q
  cover : ∀ x, cover result x = block.covers x + cover blocks x
  total : totalUnits result = block.units + totalUnits blocks
  large : ∃ other ∈ result, block.units ≤ other.units

/-- The second `if` of `free`, when no block is below: `base` is never joined to a block. -/
theorem joinPrev_base (ring : Ring base mem above) (low : base + headerBytes ≤ block.addr)
    (positive : 0 < block.units) (next : JoinedNext base mem block above after grown rest) :
    Inserted base mem above block (joinPrev after base block.addr) base (grown :: rest) := by
  have different : base ≠ block.addr := by
    rw [headerBytes] at low
    omega
  have size : (after base).size = 0 := by rw [next.same base different, ring.baseSize]
  have joined : joinPrev after base block.addr =
      update after base { after base with ptr := block.addr } := by
    rw [joinPrev, size, if_neg (by omega)]
  have restAbove : ∀ other ∈ rest, base + headerBytes ≤ other.addr ∧ grown.stop < other.addr :=
    fun other member => ⟨ring.above other (next.sublist.subset member), next.gap other member⟩
  have baseOutside : ∀ other ∈ grown :: rest, other.addr ≠ base := by
    intro other member equal
    rcases List.mem_cons.mp member with same | later
    · rw [same, next.addr] at equal
      exact different equal.symm
    · have far := (restAbove other later).1
      rw [headerBytes] at far
      omega
  rw [joined]
  refine ⟨⟨?_, ?_, ?_, ?_, ?_, ?_⟩, List.mem_cons_self, ?_, ?_, ?_, ?_⟩
  · rw [links_update]
    refine ⟨by rw [update_self, next.addr], ?_⟩
    rw [next.addr]
    apply next.walk.congr
    intro node member
    rw [update_of_ne]
    intro equal
    rw [← next.addr] at member
    rcases List.mem_map.mp (show node ∈ addrs (grown :: rest) from member) with
      ⟨other, inside, same⟩
    exact baseOutside other inside (same.trans equal)
  · rw [update_self]
    exact size
  · intro other member
    rw [update_of_ne (baseOutside other member)]
    rcases List.mem_cons.mp member with same | later
    · rw [same, next.addr, next.size]
    · rw [next.same, ring.sizes other (next.sublist.subset later)]
      have far := (restAbove other later).2
      rw [Block.stop, next.addr] at far
      omega
  · intro other member
    rcases List.mem_cons.mp member with same | later
    · rw [same]
      exact Nat.lt_of_lt_of_le positive next.units
    · exact ring.positive other (next.sublist.subset later)
  · exact List.pairwise_cons.mpr ⟨next.gap, ring.apart.sublist next.sublist⟩
  · intro other member
    rcases List.mem_cons.mp member with same | later
    · rw [same, next.addr]
      exact low
    · exact (restAbove other later).1
  · intro q notBlock outside
    rw [update_of_ne, next.same q notBlock]
    intro equal
    exact outside (equal ▸ List.mem_cons_self)
  · intro x
    rw [cover_cons, next.cover]
  · rw [totalUnits_cons, next.total]
  · exact ⟨grown, List.mem_cons_self, next.units⟩

/-- The place of a block after the block `last`. -/
structure After (base : Nat) (mem : Mem) (block : Block) (before : List Block) (last : Block)
    (above : List Block) (after : Mem) (grown : Block) (rest : List Block) : Prop where
  ring : Ring base mem (before ++ last :: above)
  low : base + headerBytes ≤ block.addr
  positive : 0 < block.units
  below : last.stop ≤ block.addr
  next : JoinedNext base mem block above after grown rest

namespace After

variable {after : Mem} {last grown : Block} {before rest : List Block} {header : Header}

section

variable (place : After base mem block before last above after grown rest)

include place

theorem lastPositive : 0 < last.units :=
  place.ring.positive last (by simp)

theorem lastLow : last.addr < block.addr := by
  have positive := place.lastPositive
  have below := place.below
  simp only [Block.stop, headerBytes] at below
  omega

theorem before_lt : ∀ other ∈ before, other.stop < last.addr := by
  intro other member
  exact (List.pairwise_append.mp place.ring.apart).2.2 other member last List.mem_cons_self

theorem outside : ∀ addr ∈ base :: addrs before, addr ≠ last.addr ∧ addr ≠ block.addr := by
  have lastLow := place.lastLow
  intro addr member
  rcases List.mem_cons.mp member with equal | inside
  · have aboveBase := place.ring.above last (by simp)
    rw [headerBytes] at aboveBase
    omega
  · rcases List.mem_map.mp inside with ⟨other, there, equal⟩
    have less := place.before_lt other there
    rw [Block.stop] at less
    omega

theorem restOutside : ∀ addr ∈ addrs rest, addr ≠ last.addr ∧ addr ≠ block.addr := by
  have lastLow := place.lastLow
  intro addr member
  rcases List.mem_map.mp member with ⟨other, there, equal⟩
  have far := place.next.gap other there
  rw [Block.stop, place.next.addr] at far
  omega

theorem size : (after last.addr).size = last.units := by
  rw [place.next.same _ (Nat.ne_of_lt place.lastLow), place.ring.sizes last (by simp)]

theorem frame :
    ∀ q, q ≠ block.addr → q ∉ base :: addrs (before ++ last :: above) →
      update after last.addr header q = mem q := by
  intro q notBlock notNode
  rw [update_of_ne, place.next.same q notBlock]
  intro equal
  apply notNode
  rw [equal]
  simp

theorem walkBefore :
    Walk (links (update after last.addr header)) base (addrs before) last.addr := by
  have walks : Walk (links mem) base (addrs before ++ last.addr :: addrs above) base := by
    simpa using place.ring.walk
  apply (Walk.append_iff.mp walks).1.congr
  intro node member
  rcases place.outside node member with ⟨notLast, notBlock⟩
  rw [links_update, update_of_ne notLast, links, place.next.same node notBlock]
  rfl

theorem kept :
    ∀ other ∈ before ++ rest, (update after last.addr header other.addr).size = other.units := by
  intro other member
  rcases List.mem_append.mp member with early | late
  · rcases place.outside other.addr (List.mem_cons_of_mem _ (List.mem_map_of_mem early)) with
      ⟨notLast, notBlock⟩
    rw [update_of_ne notLast, place.next.same _ notBlock,
      place.ring.sizes other (List.mem_append_left _ early)]
  · rcases place.restOutside other.addr (List.mem_map_of_mem late) with ⟨notLast, notBlock⟩
    have inside : other ∈ before ++ last :: above := by simp [place.next.sublist.subset late]
    rw [update_of_ne notLast, place.next.same _ notBlock, place.ring.sizes other inside]

/-- What has to be shown of the blocks `head :: tail` that stand for `last` and the block
that is put in. -/
theorem inserted (head : Block) (tail : List Block) (start : head.addr = last.addr)
    (walk : Walk (links (update after last.addr header)) last.addr (addrs (tail ++ rest)) base)
    (sizes : ∀ other ∈ head :: tail, (update after last.addr header other.addr).size = other.units)
    (positive : ∀ other ∈ head :: tail, 0 < other.units)
    (inside : ∀ other ∈ head :: tail, last.addr ≤ other.addr ∧ other.stop ≤ grown.stop)
    (apart : (head :: tail).Pairwise fun a b => a.stop < b.addr)
    (cover : ∀ x, cover (head :: tail) x = last.covers x + grown.covers x)
    (total : totalUnits (head :: tail) = last.units + grown.units)
    (large : ∃ other ∈ head :: tail, block.units ≤ other.units) :
    Inserted base mem (before ++ last :: above) block (update after last.addr header)
      last.addr (before ++ (head :: tail ++ rest)) := by
  have old : ∀ other ∈ before ++ rest, other ∈ before ++ last :: above := by
    intro other member
    rcases List.mem_append.mp member with early | late
    · simp [early]
    · simp [place.next.sublist.subset late]
  have cases_ : ∀ other ∈ before ++ (head :: tail ++ rest),
      other ∈ before ++ rest ∨ other ∈ head :: tail := by
    intro other member
    simp only [List.mem_append] at member ⊢
    tauto
  refine ⟨⟨?_, ?_, ?_, ?_, ?_, ?_⟩, ?_, place.frame, ?_, ?_, ?_⟩
  · have both : Walk (links (update after last.addr header)) base
        (addrs before ++ head.addr :: addrs (tail ++ rest)) base := by
      rw [Walk.append_iff, start]
      exact ⟨place.walkBefore, walk⟩
    simpa using both
  · rcases place.outside base List.mem_cons_self with ⟨notLast, notBlock⟩
    rw [update_of_ne notLast, place.next.same base notBlock, place.ring.baseSize]
  · intro other member
    rcases cases_ other member with keptOne | new
    · exact place.kept other keptOne
    · exact sizes other new
  · intro other member
    rcases cases_ other member with keptOne | new
    · exact place.ring.positive other (old other keptOne)
    · exact positive other new
  · have whole := List.pairwise_append.mp place.ring.apart
    rw [List.pairwise_append, List.pairwise_append]
    refine ⟨whole.1, ⟨apart, (List.pairwise_cons.mp whole.2.1).2.sublist place.next.sublist, ?_⟩, ?_⟩
    · intro a member b later
      have within := (inside a member).2
      have far := place.next.gap b later
      omega
    · intro a early b late
      have less := place.before_lt a early
      rcases List.mem_append.mp late with new | above_
      · have within := (inside b new).1
        omega
      · exact whole.2.2 a early b (List.mem_cons_of_mem _ (place.next.sublist.subset above_))
  · intro other member
    rcases cases_ other member with keptOne | new
    · exact place.ring.above other (old other keptOne)
    · have lastAbove := place.ring.above last (by simp)
      have within := (inside other new).1
      omega
  · rw [← start]
    simp
  · intro x
    have next := place.next.cover x
    rw [cover_append, cover_append, cover x, cover_append, cover_cons]
    omega
  · have next := place.next.total
    rw [totalUnits_append, totalUnits_append, total, totalUnits_append, totalUnits_cons]
    omega
  · rcases large with ⟨other, member, enough⟩
    exact ⟨other, List.mem_append_right _ (List.mem_append_left _ member), enough⟩

theorem joinPrev_eq (small : block.units + totalUnits (before ++ last :: above) < 2 ^ 32) :
    ∃ result, Inserted base mem (before ++ last :: above) block
      (joinPrev after last.addr block.addr) last.addr result := by
  have stop : last.addr + headerBytes * (after last.addr).size = last.stop := by
    rw [place.size, Block.stop]
  have total := place.next.total
  have lastLow := place.lastLow
  have lastPositive := place.lastPositive
  have grownPositive := Nat.lt_of_lt_of_le place.positive place.next.units
  have addr := place.next.addr
  rw [totalUnits_append, totalUnits_cons] at small
  by_cases join : last.stop = block.addr
  · have joined : joinPrev after last.addr block.addr =
        update after last.addr ⟨links after block.addr, last.units + grown.units⟩ := by
      rw [joinPrev, stop, if_pos join, place.size, place.next.size, uint_eq (by omega)]
      rfl
    have start : last.addr + headerBytes * last.units = grown.addr := by
      rw [addr, ← join, Block.stop]
    rw [joined]
    refine ⟨_, place.inserted ⟨last.addr, last.units + grown.units⟩ [] rfl ?_ ?_ ?_ ?_ ?_ ?_ ?_ ?_⟩
    · rw [links_update, List.nil_append]
      apply place.next.walk.restart
      · rw [update_self]
      · intro node member
        rw [update_of_ne (place.restOutside node member).1]
    · intro other member
      rw [List.mem_singleton.mp member, update_self]
    · intro other member
      rw [List.mem_singleton.mp member]
      exact Nat.add_pos_left lastPositive _
    · intro other member
      rw [List.mem_singleton.mp member]
      simp only [Block.stop, headerBytes] at start ⊢
      omega
    · exact List.pairwise_singleton _ _
    · intro x
      rw [cover_cons, cover_nil, covers_split, start]
      rfl
    · simp
    · exact ⟨_, List.mem_singleton_self _, Nat.le_trans place.next.units (Nat.le_add_left _ _)⟩
  · have joined : joinPrev after last.addr block.addr =
        update after last.addr { after last.addr with ptr := block.addr } := by
      rw [joinPrev, stop, if_neg join]
    rw [joined]
    refine ⟨_, place.inserted last [grown] rfl ?_ ?_ ?_ ?_ ?_ ?_ ?_ ?_⟩
    · rw [links_update]
      refine ⟨by rw [update_self, addr], ?_⟩
      rw [addr]
      apply place.next.walk.congr
      intro node member
      rw [update_of_ne]
      rcases List.mem_cons.mp member with equal | inside
      · omega
      · exact (place.restOutside node inside).1
    · intro other member
      rcases List.mem_cons.mp member with equal | inside
      · rw [equal, update_self]
        exact place.size
      · rw [List.mem_singleton.mp inside, addr, update_of_ne (by omega), place.next.size]
    · intro other member
      rcases List.mem_cons.mp member with equal | inside
      · rw [equal]
        exact lastPositive
      · rw [List.mem_singleton.mp inside]
        exact grownPositive
    · have below := place.below
      intro other member
      rcases List.mem_cons.mp member with equal | inside
      · rw [equal]
        simp only [Block.stop, headerBytes] at below ⊢
        omega
      · rw [List.mem_singleton.mp inside]
        omega
    · have below := place.below
      rw [List.pairwise_pair]
      omega
    · intro x
      simp
    · simp
    · exact ⟨grown, by simp, place.next.units⟩

end

end After

theorem free_eq {heap : Heap} (ring : Ring base heap.mem blocks)
    (freep : heap.freep ∈ base :: addrs blocks) (size : (heap.mem block.addr).size = block.units)
    (positive : 0 < block.units) (low : base + headerBytes ≤ block.addr)
    (apart : ∀ other ∈ blocks, other.Apart block) (enough : blocks.length ≤ totalUnits heap.regions)
    (small : block.units + totalUnits blocks < 2 ^ 32) :
    ∃ after p result, free heap block.addr = some { heap with mem := after, freep := p } ∧
      Inserted base heap.mem blocks block after p result := by
  rcases split_at ring.apart apart with ⟨below, above, split, before, after⟩
  have lowAddrs : ∀ a ∈ base :: addrs below, a < block.addr := by
    intro a member
    rcases List.mem_cons.mp member with equal | inside
    · rw [headerBytes] at low
      omega
    · rcases List.mem_map.mp inside with ⟨other, there, equal⟩
      have less := before other there
      have some := ring.positive other (by rw [split]; exact List.mem_append_left _ there)
      simp only [Block.stop, headerBytes] at less
      omega
  have highAddrs : ∀ a ∈ addrs above, block.addr < a := by
    intro a member
    rcases List.mem_map.mp member with ⟨other, there, equal⟩
    have more := after other there
    simp only [Block.stop, headerBytes] at more
    omega
  have sorted := ring.sorted
  have walk := ring.walk
  rw [split, addrs, List.map_append] at sorted walk freep
  have length : (addrs below ++ addrs above).length = blocks.length := by
    rw [split]
    simp
  have place := findPlace_eq walk sorted lowAddrs highAddrs freep
    (show _ < totalUnits heap.regions + 2 by rw [length]; omega)
  have walkAbove := walk.of_append
  have apartAbove : above.Pairwise fun a b => a.stop < b.addr :=
    (List.pairwise_append.mp (split ▸ ring.apart)).2.1
  have sizesAbove : ∀ other ∈ above, (heap.mem other.addr).size = other.units := by
    intro other member
    exact ring.sizes other (by rw [split]; exact List.mem_append_right _ member)
  have smallAbove : block.units + totalUnits above < 2 ^ 32 := by
    rw [split, totalUnits_append] at small
    omega
  rcases joinNext_eq walkAbove size positive (lowAddrs base List.mem_cons_self) after sizesAbove
    apartAbove smallAbove with ⟨grown, rest, next⟩
  have result : ∃ result, Inserted base heap.mem blocks block
      (joinPrev (joinNext heap.mem block.addr
        (heap.mem (Walk.lastNode base (addrs below))).ptr) (Walk.lastNode base (addrs below))
        block.addr) (Walk.lastNode base (addrs below)) result := by
    rcases List.eq_nil_or_concat below with empty | ⟨init, last, equal⟩
    · rw [empty] at split next ⊢
      rw [List.nil_append] at split
      rw [split] at ring ⊢
      exact ⟨_, joinPrev_base ring low positive next⟩
    · rw [List.concat_eq_append] at equal
      have lastNode : Walk.lastNode base (addrs below) = last.addr := by
        rw [equal, Walk.lastNode]
        simp
      have whole : blocks = init ++ last :: above := by rw [split, equal]; simp
      have lastMember : last ∈ below := by simp [equal]
      rw [lastNode] at next ⊢
      rw [whole] at ring small ⊢
      exact After.joinPrev_eq ⟨ring, low, positive, before last lastMember, next⟩ small
  rcases result with ⟨result, inserted⟩
  refine ⟨_, _, result, ?_, inserted⟩
  rw [free]
  simp only [place, Option.bind_eq_bind, Option.bind_some]

end Join

end Xv6.Umalloc
