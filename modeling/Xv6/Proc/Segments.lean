import Xv6.Proc.Exec
import Xv6.Proc.Copy

/-! # Loading the segments of a program

The user memory that `exec` builds is a function from addresses to bytes. It
starts with zeros, and every segment is stored into it. -/

namespace Xv6.Kernel

open StateProg Vm
open Prog (wp_bind wp_mono wp_pure)
open Function (update update_self update_of_ne)

variable {n : Nat}

section Images

variable {image : Nat → UInt8} {start vpn : Nat} {bytes : List UInt8}

/-- User memory with `bytes` stored from `start` on. -/
def store (image : Nat → UInt8) (start : Nat) (bytes : List UInt8) (va : Nat) : UInt8 :=
  if start ≤ va ∧ va < start + bytes.length then bytes.getD (va - start) 0 else image va

/-- One page of user memory. -/
def pageOf (image : Nat → UInt8) (vpn : Nat) : Page := fun index => image (vpn * pgSize + index)

theorem store_outside (outside : va < start ∨ start + bytes.length ≤ va) :
    store image start bytes va = image va :=
  if_neg (by omega)

theorem store_inside (inside : i < bytes.length) :
    store image start bytes (start + i) = bytes.getD i 0 := by
  rw [store, if_pos (by omega), Nat.add_sub_cancel_left]

theorem store_nil : store image start [] = image := by
  funext va
  exact store_outside (by rw [List.length_nil]; omega)

theorem store_append (first second : List UInt8) :
    store image start (first ++ second) =
      store (store image start first) (start + first.length) second := by
  funext va
  unfold store
  rw [List.length_append]
  by_cases later : start + first.length ≤ va
  · by_cases inside : va < start + (first.length + second.length)
    · have index : va - start = first.length + (va - (start + first.length)) := by omega
      rw [if_pos (by omega), if_pos (by omega), index, List.getD_append_right _ _ _ _ (by omega),
        Nat.add_sub_cancel_left]
    · rw [if_neg (by omega), if_neg (by omega), if_neg (by omega)]
  · by_cases inside : start ≤ va
    · rw [if_pos (by omega), if_neg (by omega), if_pos (by omega),
        List.getD_append _ _ _ _ (by omega)]
    · rw [if_neg (by omega), if_neg (by omega), if_neg (by omega)]

theorem store_page (enough : min n pgSize ≤ bytes.length) :
    store (store image start (bytes.take (min n pgSize))) (start + pgSize)
      ((bytes.drop pgSize).take (n - pgSize)) = store image start (bytes.take n) := by
  rcases Nat.le_total n pgSize with last | more
  · rw [Nat.min_eq_left last, Nat.sub_eq_zero_of_le last, List.take_zero, store_nil]
  · rw [Nat.min_eq_right more] at enough ⊢
    have split : n = pgSize + (n - pgSize) := by omega
    have length : (bytes.take pgSize).length = pgSize := by
      rw [List.length_take, Nat.min_eq_left enough]
    conv_rhs => rw [split, List.take_add, store_append, length]

theorem pageOf_store_same :
    pageOf (store image va bytes) (va / pgSize) =
      (pageOf image (va / pgSize)).write (va % pgSize) bytes := by
  funext index
  have split := Nat.div_add_mod va pgSize
  unfold pageOf store Bytes.write
  by_cases inside : va % pgSize ≤ index ∧ index < va % pgSize + bytes.length
  · rw [if_pos inside, if_pos (by rw [Nat.mul_comm]; omega)]
    congr 1
    rw [Nat.mul_comm]
    omega
  · rw [if_neg inside, if_neg (by rw [Nat.mul_comm]; omega)]

theorem pageOf_store_other (fits : va % pgSize + bytes.length ≤ pgSize)
    (different : vpn ≠ va / pgSize) : pageOf (store image va bytes) vpn = pageOf image vpn := by
  funext index
  have split := Nat.div_add_mod va pgSize
  have small := index.isLt
  apply store_outside
  unfold pgSize at *
  omega

end Images

/-- The panic of `loadseg`. -/
def noAddress : String := "loadseg: address should exist"

variable [KernelImage] {allowed : String → Prop} {before memory after : Memory}
  {table trapframe sz : Nat} {guard : Option Nat} {image : Nat → UInt8}

/-- Where the kernel ends above address 0 and below the top of memory, `kfree` accepts all
pages, and no page of a process is at address 0, which `walkaddr` takes for none. -/
def Placed (allowed : String → Prop) : Prop :=
  allowed noAddress ∧ allowed "kfree" ∨
    ¬allowed "kfree" ∧ 0 < KernelImage.kernelEnd ∧ KernelImage.kernelEnd ≤ physTop

omit [KernelImage] in
/-- User memory has the pages below `sz` with the contents of `image`, all of them accessible
but the guard page. -/
structure Holds (cell : Nat → Page) (table sz : Nat) (guard : Option Nat) (image : Nat → UInt8) :
    Prop where
  bound : sz ≤ trapframeVa
  maps : Maps cell table (· < numPages sz)
  page : ∀ vpn < numPages sz, ∃ pte,
    userPageAt cell table vpn = some (pte, pageOf image vpn) ∧
      (hasFlag pte pteU = true ↔ some vpn ≠ guard)

/-- An address space under construction. -/
structure Loading (allowed : String → Prop) (before memory : Memory) (table trapframe sz : Nat)
    (guard : Option Nat) (image : Nat → UInt8) : Prop
    extends Holds memory.cell table sz guard image where
  safe : Safe allowed memory (Vm.space memory.cell table)
  change : SpaceChange table before memory
  space : Space memory.cell table trapframe
  zero : ∀ va, numPages sz * pgSize ≤ va → image va = 0

variable {cell : Nat → Page} {vpn : Nat}

omit [KernelImage] in
theorem userPageAt_eq_some :
    userPageAt cell table vpn = some (pte, contents) ↔
      hasFlag (leafAt cell (vpn * pgSize) 2 table) pteV = true ∧
        pte = leafAt cell (vpn * pgSize) 2 table ∧ contents = cell (pte2pa pte) := by
  unfold userPageAt entryOf
  split
  · rename_i valid
    simp only [Option.map_some, Option.some.injEq, Prod.mk.injEq, valid, true_and]
    constructor
    · rintro ⟨rfl, rfl⟩
      exact ⟨rfl, rfl⟩
    · rintro ⟨rfl, rfl⟩
      exact ⟨rfl, rfl⟩
  · rename_i invalid
    exact iff_of_false (by simp) fun holds => invalid holds.1

omit [KernelImage] in
theorem hasFlag_userPerm (xperm : Nat) :
    hasFlag (pteR ||| pteU ||| xperm ||| pteV) pteU = true := by
  unfold hasFlag
  rw [Nat.and_or_distrib_right, Nat.and_or_distrib_right, bne_iff_ne]
  intro zero
  have first := (Nat.or_eq_zero_iff.mp (Nat.or_eq_zero_iff.mp zero).1).1
  exact absurd first (by decide)

omit [KernelImage] in
theorem mem_userPages_own (own : vpn ∈ ownVpns)
    (valid : hasFlag (leafAt cell (vpn * pgSize) 2 table) pteV = true) :
    pte2pa (leafAt cell (vpn * pgSize) 2 table) ∈ userPages cell table := by
  apply mem_userPages (Nat.mul_mod_left _ _) _ valid
  rw [Nat.mul_div_cancel _ (by decide)]
  exact own

omit [KernelImage] in
theorem Holds.vpn_lt (holds : Holds cell table sz guard image) (inside : vpn < numPages sz) :
    vpn < trapframeVa / pgSize :=
  (mem_userRange.mp (numPages_lt holds.bound inside)).2

variable {va : Nat}

theorem Holds.found (holds : Holds memory.cell table sz guard image)
    (safe : Safe allowed memory (Vm.space memory.cell table)) (placed : Placed allowed)
    (inside : va / pgSize < numPages sz) (user : some (va / pgSize) ≠ guard) :
    allowed noAddress ∨ ∃ pa, userPage memory.cell table va = some pa ∧
      memory.cell pa = pageOf image (va / pgSize) := by
  rcases placed with ⟨weak, _⟩ | ⟨noKfree, positive, _⟩
  · exact .inl weak
  · rcases holds.page _ inside with ⟨pte, here, isUser⟩
    rcases userPageAt_eq_some.mp here with ⟨valid, rfl, contents⟩
    have low := holds.vpn_lt inside
    have member := mem_userPages_own (own_of_lt_div low) valid
    have above := safe.above.resolve_left noKfree _
      (Multiset.mem_add.mpr (.inr (Multiset.mem_add.mpr (.inr member))))
    have inRange : va / pgSize * pgSize < maxVa := by
      unfold trapframeVa trampolineVa maxVa pgSize at *
      omega
    refine .inr ⟨pte2pa (leafAt memory.cell (va / pgSize * pgSize) 2 table), ?_, contents.symm⟩
    rw [← userPage_roundDown]
    exact if_pos ⟨inRange, valid, isUser.mpr user, Nat.ne_of_gt (positive.trans_le above)⟩

namespace Loading

theorem proper_own (loading : Loading allowed before memory table trapframe sz guard image) :
    Proper memory (tables memory.cell 2 table + mappedPages true memory.cell table ownVpns) := by
  rw [mappedPages, if_pos rfl]
  exact loading.safe.toProper

/-- Entries of some pages below the trapframe change, and the pages that they map. -/
theorem remap (loading : Loading allowed before memory table trapframe sz guard image)
    (remapped : Remapped true table vpns memory after) (below : vpns ⊆ userRange 0)
    (bound : sz' ≤ trapframeVa) (maps : Maps after.cell table (· < numPages sz'))
    (more : numPages sz ≤ numPages sz')
    (old : ∀ vpn < numPages sz', vpn ∉ vpns →
      vpn < numPages sz ∧ (some vpn ≠ guard ↔ some vpn ≠ guard'))
    (new : ∀ vpn < numPages sz', vpn ∈ vpns → ∃ pte,
      userPageAt after.cell table vpn = some (pte, pageOf image vpn) ∧
        (hasFlag pte pteU = true ↔ some vpn ≠ guard')) :
    Loading allowed before after table trapframe sz' guard' image where
  safe := loading.safe.exchange (remapped.spaceChange below).exchange
  change := loading.change.trans (remapped.spaceChange below)
  space := (remapped.spaceChange below).space loading.space
  bound := bound
  maps := maps
  page := by
    intro vpn inside
    by_cases member : vpn ∈ vpns
    · exact new vpn inside member
    · rcases old vpn inside member with ⟨present, same⟩
      rcases loading.page vpn present with ⟨pte, found, user⟩
      have own : ∀ {other}, other ∈ userRange 0 → other ∈ ownVpns := fun inside =>
        own_of_lt_div (mem_userRange.mp inside).2
      have mine := own (numPages_lt loading.bound present)
      refine ⟨pte, ?_, user.trans same⟩
      rw [remapped.userPageAt_eq loading.proper_own (fun _ inside => own (below inside)) mine
        (mem_ownVpns.mp mine).1 member]
      exact found
  zero va beyond := by
    apply loading.zero
    have := Nat.mul_le_mul_right pgSize more
    omega

theorem uvmalloc (loading : Loading allowed before memory table trapframe sz none image)
    (small : xperm < 2 ^ 10) :
    wp allowed (Vm.uvmalloc table sz newsz xperm) memory fun sz1 after =>
      sz1 = 0 ∧ Loading allowed before after table trapframe sz none image ∨
        sz1 = max sz newsz ∧ Loading allowed before after table trapframe sz1 none image := by
  rcases Nat.lt_or_ge newsz sz with smaller | order
  · rw [Vm.uvmalloc, if_pos smaller]
    exact wp_pure.mpr (.inr ⟨(Nat.max_eq_left smaller.le).symm, loading⟩)
  · have tablesSafe := loading.safe.of_le (Multiset.le_add_right _ _)
    apply wp_mono (uvmalloc_fills order loading.bound small tablesSafe loading.space.wellFormed
      loading.maps.above (.inr (loading.maps.free_room loading.safe.toProper)))
    intro sz1 after result
    rcases result with ⟨rfl, limit, filled⟩ | ⟨rfl, cleared⟩
    · have ordered := numPages_mono order limit
      have maps := filled.maps loading.maps
      rw [Nat.add_sub_cancel' ordered] at maps
      refine .inr ⟨(Nat.max_eq_right order).symm, loading.remap filled.toRemapped
        (pageRange_below (pageRange_numPages order limit)) limit maps ordered ?_ ?_⟩
      · intro vpn inside outside
        rw [mem_pageRange] at outside
        exact ⟨by omega, Iff.rfl⟩
      · intro vpn _ member
        rcases filled.page vpn member with ⟨mem, free, entry, contents⟩
        have aligned := (loading.safe.good mem (Multiset.mem_add.mpr (.inl free))).1
        refine ⟨_, userPageAt_eq_some.mpr ⟨?_, rfl, ?_⟩, ?_⟩
        · rw [entry]
          exact hasFlag_pteV
        · rw [entry, Nat.or_assoc, pte2pa_entry aligned (Nat.or_lt_two_pow (userPerm small).2
            (by decide)), contents]
          funext index
          rw [mem_pageRange] at member
          have := Nat.mul_le_mul_right pgSize member.1
          exact loading.zero _ (by omega)
        · rw [entry, Nat.or_assoc, hasFlag_entry (by decide)]
          exact iff_of_true (hasFlag_userPerm xperm) (Option.some_ne_none vpn)
    · have below : userRange (numPages sz) ⊆ userRange 0 := by
        intro vpn inside
        rw [mem_userRange] at inside ⊢
        omega
      have maps := cleared.maps loading.maps (fun vpn member => (mem_userRange.mp member).1)
        fun _ _ => Iff.rfl
      refine .inl ⟨rfl, loading.remap cleared.toRemapped below loading.bound maps (Nat.le_refl _)
        (fun vpn inside _ => ⟨inside, Iff.rfl⟩) ?_⟩
      intro vpn inside member
      rw [mem_userRange] at member
      omega

variable {bytes : List UInt8}

theorem store (loading : Loading allowed before memory table trapframe sz guard image)
    (found : userPage memory.cell table va = some pa) (inside : va / pgSize < numPages sz)
    (fits : va % pgSize + bytes.length ≤ pgSize) :
    Loading allowed before
      { memory with
        cell := update memory.cell pa ((memory.cell pa).write (va % pgSize) bytes) }
      table trapframe sz guard (Kernel.store image va bytes) := by
  have notTable := loading.space.tablesApart loading.safe.toProper va pa found
  rcases loading.space.found found with ⟨own, valid, place⟩
  have member : pa ∈ userPages memory.cell table := by
    rw [place]
    exact mem_userPages_own own valid
  have contents := ContentsChange.storePage loading.safe.toProper loading.space.wellFormed member
    ((memory.cell pa).write (va % pgSize) bytes)
  have kept : ∀ page ∈ tables memory.cell 2 table,
      update memory.cell pa ((memory.cell pa).write (va % pgSize) bytes) page =
        memory.cell page := by
    intro page isTable
    apply update_of_ne
    rintro rfl
    exact notTable isTable
  refine ⟨⟨loading.bound, contents.maps _ loading.maps, ?_⟩,
    loading.safe.exchange contents.exchange, loading.change.trans contents.toSpaceChange,
    contents.toSpaceChange.space loading.space, ?_⟩
  · intro vpn present
    rcases loading.page vpn present with ⟨pte, here, user⟩
    rcases userPageAt_eq_some.mp here with ⟨valid', rfl, same⟩
    have leaf : leafAt (update memory.cell pa ((memory.cell pa).write (va % pgSize) bytes))
        (vpn * pgSize) 2 table = leafAt memory.cell (vpn * pgSize) 2 table := leafAt_congr kept
    refine ⟨_, userPageAt_eq_some.mpr ⟨?_, leaf.symm, ?_⟩, user⟩
    · rw [leaf]
      exact valid'
    by_cases equal : vpn = va / pgSize
    · subst equal
      rw [pageOf_store_same, same, ← place]
      dsimp only
      rw [update_self]
    · rw [pageOf_store_other fits equal, same]
      dsimp only
      rw [update_of_ne]
      intro shared
      rw [place] at shared
      exact equal (mappedPages_injective (Multiset.nodup_add.mp loading.proper_own.owned_nodup).2.1
        (own_of_lt_div (loading.vpn_lt present)) own valid' valid shared)
  · intro other beyond
    have := Nat.div_add_mod va pgSize
    have := Nat.mul_le_mul_right pgSize (Nat.succ_le_of_lt inside)
    rw [store_outside, loading.zero other beyond]
    rw [Nat.succ_mul, Nat.mul_comm] at this
    omega

theorem copyout (loading : Loading allowed before memory table trapframe sz guard image)
    (placed : Placed allowed) (some : bytes ≠ []) (inside : va / pgSize < numPages sz)
    (user : Option.some (va / pgSize) ≠ guard) (fits : va % pgSize + bytes.length ≤ pgSize) :
    wp allowed (Vm.copyout table va bytes) memory fun done after =>
      (done = true →
        Loading allowed before after table trapframe sz guard (Kernel.store image va bytes)) ∧
      (done = false → allowed noAddress ∧
        Loading allowed before after table trapframe sz guard image) := by
  have apart := loading.space.tablesApart loading.safe.toProper
  have positive : 0 < bytes.length := List.length_pos_iff.mpr some
  apply wp_mono (copyoutFrom_stores apart bytes.length (Nat.le_refl _) fun _ _ => rfl)
  intro done after result
  rcases result with ⟨n, reach, rfl, rfl⟩
  cases found : userPage memory.cell table va with
  | none =>
    have stopped : n = 0 := reach.unique (.stopped found)
    have weak : allowed noAddress := by
      rcases loading.toHolds.found loading.safe placed inside user with weak | ⟨pa, there, _⟩
      · exact weak
      · rw [found] at there
        cases there
    subst stopped
    exact ⟨fun done => absurd (of_decide_eq_true done) (by omega), fun _ => ⟨weak, loading⟩⟩
  | some pa =>
    have all : ∀ i < bytes.length, userPage memory.cell table (va + i) = Option.some pa := by
      intro i bound
      rw [userPage_add (by omega)]
      exact found
    have whole : n = bytes.length := by
      apply reach.eq_iff.mpr
      intro i bound
      rw [Accessible, all i bound]
      rfl
    subst whole
    rw [List.take_length, storeBytes_page bytes fits all, if_neg some]
    exact ⟨fun _ => loading.store found inside fits, by simp⟩

end Loading

/-! ## The file -/

omit [KernelImage] in
theorem readi_full {file : List UInt8} {off : Nat} (positive : 0 < n)
    (full : (readi file off n).length = n) :
    readi file off n = (file.drop off).take n ∧ off + n ≤ file.length := by
  unfold readi at full ⊢
  split at full
  · rw [List.length_nil] at full
    omega
  · rename_i inside
    rw [if_neg inside]
    rw [List.length_take, List.length_drop] at full
    exact ⟨rfl, by omega⟩

omit [KernelImage] in
theorem readi_length_le (file : List UInt8) (off n : Nat) : (readi file off n).length ≤ n := by
  unfold readi
  split
  · exact Nat.zero_le n
  · exact List.length_take_le ..

theorem loadsegFrom_spec (placed : Placed allowed) {offset filesz : Nat} (file : List UInt8)
    (count i : Nat) (aligned : va % pgSize = 0) (aligned' : i % pgSize = 0)
    (steps : count = (filesz - i + pgSize - 1) / pgSize)
    (inside : va + filesz ≤ numPages sz * pgSize)
    (loading : Loading allowed before memory table trapframe sz none image) :
    wp allowed (loadsegFrom table va file offset filesz count i) memory fun done after =>
      ∃ image', Loading allowed before after table trapframe sz none image' ∧
        (done = true → file.length < 2 ^ 32 → (0 < count → offset + i < 2 ^ 32) →
          image' = store image (va + i) ((file.drop (offset + i)).take (filesz - i))) := by
  induction count generalizing i image memory with
  | zero =>
    refine wp_pure.mpr ⟨image, loading, fun _ _ _ => ?_⟩
    have done : filesz - i = 0 := by
      unfold pgSize at steps
      omega
    rw [done, List.take_zero, store_nil]
  | succ count induction =>
    have more : i < filesz ∧ count = (filesz - (i + pgSize) + pgSize - 1) / pgSize := by
      unfold pgSize at *
      omega
    have page : (va + i) % pgSize = 0 := by
      rw [Nat.add_mod, aligned, aligned']
      rfl
    have present : (va + i) / pgSize < numPages sz := by
      rw [Nat.div_lt_iff_lt_mul (by decide)]
      omega
    unfold loadsegFrom
    apply wp_bind.mpr
    apply wp_walkaddr
    cases found : userPage memory.cell table (va + i) with
    | none =>
      rcases loading.toHolds.found loading.safe placed present (Option.some_ne_none _) with
        weak | ⟨pa, there, _⟩
      · exact Prog.wp_panic.mpr weak
      · rw [found] at there
        cases there
    | some pa =>
      simp only [writePage, wp_bind, wp_modify]
      have short : (if filesz - i < pgSize then filesz - i else pgSize) =
          min (filesz - i) pgSize := by
        split <;> omega
      rw [short]
      have fits : (va + i) % pgSize +
          (readi file ((offset + i) % 2 ^ 32) (min (filesz - i) pgSize)).length ≤ pgSize := by
        rw [page, Nat.zero_add]
        exact (readi_length_le ..).trans (Nat.min_le_right _ _)
      have stored := loading.store found present fits
      rw [page] at stored
      split
      · exact wp_pure.mpr ⟨_, stored, fun impossible => by cases impossible⟩
      · rename_i full
        rw [not_not] at full
        apply wp_mono (induction (i + pgSize) (by rw [Nat.add_mod_right]; exact aligned')
          more.2 stored)
        intro done after result
        rcases result with ⟨image', loaded, same⟩
        refine ⟨image', loaded, fun isDone small start => ?_⟩
        have whole := Nat.mod_eq_of_lt (start (Nat.succ_pos count))
        rw [whole] at full
        rcases readi_full (by unfold pgSize; omega) full with ⟨bytes, within⟩
        have rest : file.drop (offset + (i + pgSize)) =
            (file.drop (offset + i)).drop pgSize := by
          rw [List.drop_drop, Nat.add_assoc]
        rw [same isDone small (by unfold pgSize at *; omega), whole, bytes, rest,
          ← Nat.add_assoc, ← Nat.sub_sub]
        apply store_page
        rw [List.length_drop]
        omega

/-! ## The program headers -/

/-- User memory after the segments have been stored, in the order of the table. -/
def segmentsImage (file : List UInt8) : (count off : Nat) → (image : Nat → UInt8) → Nat → UInt8
  | 0, _, image => image
  | count + 1, off, image =>
    let ph := (file.drop off).take proghdrSize
    segmentsImage file count ((off + proghdrSize) % 2 ^ 32)
      (if field ph 0 4 = elfProgLoad then
        store image (field ph 16 8) ((file.drop (field ph 8 8 % 2 ^ 32)).take (field ph 32 8))
      else image)

/-- The size of user memory after the segments have been allocated. -/
def segmentsEnd (file : List UInt8) : (count off sz : Nat) → Nat
  | 0, _, sz => sz
  | count + 1, off, sz =>
    let ph := (file.drop off).take proghdrSize
    segmentsEnd file count ((off + proghdrSize) % 2 ^ 32)
      (if field ph 0 4 = elfProgLoad then max sz (field ph 16 8 + field ph 40 8) else sz)

omit [KernelImage] in
theorem flags2perm_lt (flags : Nat) : flags2perm flags < 2 ^ 10 := by
  unfold flags2perm
  apply Nat.or_lt_two_pow
  · split <;> decide
  · split <;> decide

omit [KernelImage] in
theorem field_lt (header : List UInt8) (offset width : Nat) :
    field header offset width < 256 ^ width :=
  (Bytes.decode_lt _).trans_le (Nat.pow_le_pow_right (by decide) (List.length_take_le ..))

theorem loadSegments_spec (placed : Placed allowed) (file : List UInt8) (count off : Nat)
    (loading : Loading allowed before memory table trapframe sz none image) :
    wp allowed (loadSegments table file count off sz) memory fun result after =>
      ∃ image', Loading allowed before after table trapframe result.2 none image' ∧
        (result.1 = true → file.length < 2 ^ 32 →
          result.2 = segmentsEnd file count off sz ∧
            image' = segmentsImage file count off image) := by
  induction count generalizing off sz memory image with
  | zero => exact wp_pure.mpr ⟨image, loading, fun _ _ => ⟨rfl, rfl⟩⟩
  | succ count induction =>
    have stop : ∀ {sz image memory final} {last : Nat → UInt8},
        Loading allowed before memory table trapframe sz none image →
        wp allowed (pure (false, sz) : MemProg (Bool × Nat)) memory fun result after =>
          ∃ image', Loading allowed before after table trapframe result.2 none image' ∧
            (result.1 = true → file.length < 2 ^ 32 → result.2 = final ∧ image' = last) :=
      fun loading => wp_pure.mpr ⟨_, loading, fun impossible => by cases impossible⟩
    simp only [loadSegments]
    split
    · exact stop loading
    · rename_i full
      rw [not_not] at full
      have ph := (readi_full (by decide) full).1
      rw [segmentsEnd, segmentsImage]
      simp only [ph]
      generalize (file.drop off).take proghdrSize = header
      split
      · exact induction _ loading
      · rename_i isLoad
        rw [not_not] at isLoad
        rw [if_pos isLoad, if_pos isLoad]
        split
        · exact stop loading
        · rename_i sizes
          split
          · exact stop loading
          · rename_i noWrap
            split
            · exact stop loading
            · rename_i aligned
              have vaddr := field_lt header 16 8
              have memsz := field_lt header 40 8
              have whole : (field header 16 8 + field header 40 8) % 2 ^ 64 =
                  field header 16 8 + field header 40 8 := by
                omega
              rw [whole]
              apply wp_bind.mpr
              apply wp_mono (loading.uvmalloc (flags2perm_lt _))
              intro sz1 middle result
              split
              · rename_i zero
                rcases result with ⟨_, kept⟩ | ⟨grown, kept⟩
                · exact stop kept
                · rw [show sz1 = sz by omega] at kept
                  exact stop kept
              · rename_i nonzero
                rcases result with ⟨zero, _⟩ | ⟨grown, kept⟩
                · exact absurd zero nonzero
                · have limit := kept.maps.limit_le kept.safe.toProper
                  have mul := numPages_mul sz1
                  have up := le_pgRoundUp kept.bound
                  have small : field header 32 8 < 2 ^ 32 ∧
                      field header 16 8 + field header 32 8 ≤ numPages sz1 * pgSize := by
                    unfold physTop kernBase pgSize at *
                    omega
                  rw [Nat.mod_eq_of_lt small.1]
                  apply wp_bind.mpr
                  apply wp_mono (loadsegFrom_spec placed file _ 0 (not_not.mp aligned)
                    (Nat.zero_mod _) (by rw [Nat.sub_zero]) small.2 kept)
                  intro done last loaded
                  rcases loaded with ⟨image', loaded, same⟩
                  cases done with
                  | false => exact stop loaded
                  | true =>
                    apply wp_mono (induction _ loaded)
                    intro result end_ holds
                    rcases holds with ⟨image'', final, equal⟩
                    refine ⟨image'', final, fun went length => ?_⟩
                    have here := same rfl length fun _ => Nat.mod_lt _ (by decide)
                    rw [here, grown, Nat.add_zero, Nat.add_zero, Nat.sub_zero] at equal
                    exact equal went length

end Xv6.Kernel
