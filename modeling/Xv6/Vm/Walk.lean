import Xv6.Vm.Table

/-! # Contracts of the allocator and of `walk` -/

namespace Xv6.Vm

open StateProg
open Prog (wp_bind wp_mono wp_pure)
open Function (update update_self update_of_ne)

/-- The panics of `vm.c` where a page is not mapped that should be, or is mapped
that should not be. -/
def shapePanics : List String :=
  ["mappages: remap", "uvmunmap: walk", "uvmunmap: not mapped", "freewalk: leaf",
    "uvmcopy: pte should exist", "uvmcopy: page not present"]

/-- The panics that may end a run: none of these, and neither of the two messages
of the model. -/
def MayPanic (message : String) : Prop :=
  message ≠ tooDeep ∧ message ≠ noPagetable ∧ message ∉ shapePanics

instance (message : String) : Decidable (MayPanic message) :=
  inferInstanceAs (Decidable (_ ∧ _ ∧ _))

/-- The free pages and the owned pages are different pages of physical memory. -/
structure Proper (memory : Memory) (owned : Multiset Nat) : Prop where
  nodup : ((memory.free : Multiset Nat) + owned).Nodup
  good : ∀ pa ∈ (memory.free : Multiset Nat) + owned, pa % pgSize = 0 ∧ pa < physTop

variable {pa : Nat}

namespace Proper

variable {memory after : Memory} {owned owned' rest : Multiset Nat}

theorem exchange (proper : Proper memory owned) (exchange : Exchange memory owned after owned') :
    Proper after owned' where
  nodup := by
    rw [exchange.conserved]
    exact proper.nodup
  good := by
    rw [exchange.conserved]
    exact proper.good

theorem left (proper : Proper memory (owned + rest)) : Proper memory owned where
  nodup := by
    have nodup := proper.nodup
    rw [← add_assoc] at nodup
    exact (Multiset.nodup_add.mp nodup).1
  good := by
    intro pa member
    apply proper.good
    rw [← add_assoc, Multiset.mem_add]
    exact .inl member

theorem right (proper : Proper memory (rest + owned)) : Proper memory owned := by
  rw [add_comm] at proper
  exact proper.left

theorem owned_nodup (proper : Proper memory owned) : owned.Nodup :=
  (Multiset.nodup_add.mp proper.nodup).2.1

theorem not_mem_free (proper : Proper memory owned) (member : pa ∈ owned) : pa ∉ memory.free := fun inside =>
  Multiset.disjoint_left.mp (Multiset.nodup_add.mp proper.nodup).2.2
    (Multiset.mem_coe.mpr inside) member

theorem untouched (proper : Proper memory (owned + rest))
    (exchange : Exchange memory owned after owned') (member : pa ∈ rest) :
    after.cell pa = memory.cell pa := by
  have nodup := proper.nodup
  rw [← add_assoc] at nodup
  exact exchange.cell_eq nodup member

end Proper

/-! ## Memory -/

variable {allowed : String → Prop}

variable {memory : Memory}

theorem panics {Value : Type} {post : Value → Memory → Prop} (may : allowed message) :
    wp allowed (.panic message) memory post :=
  Prog.wp_panic.mpr may

section Access

variable {memory : Memory} {pa index pte : Nat}

@[simp] theorem wp_loadPte {post : Nat → Memory → Prop} :
    wp allowed (loadPte pa index) memory post ↔ post (pteAt memory.cell pa index) memory := by
  simp only [loadPte, wp_bind, wp_get, wp_pure, pteAt]

variable {post : Unit → Memory → Prop}

@[simp] theorem wp_storePte :
    wp allowed (storePte pa index pte) memory post ↔
      post () { memory with cell := setEntry memory.cell pa index pte } := by
  simp only [storePte, wp_modify, setEntry]

@[simp] theorem wp_fillPage :
    wp allowed (fillPage pa byte) memory post ↔
      post () { memory with cell := update memory.cell pa fun _ => byte } := by
  simp only [fillPage, wp_modify]

end Access

/-! ## The allocator -/

/-- A page that `kalloc` has returned, and that was filled since. -/
structure Fresh (mem : Nat) (before after : Memory) : Prop where
  free : mem ∈ before.free
  exchange : ∀ owned, Exchange before owned after (mem ::ₘ owned)
  same : ∀ page, page ≠ mem → after.cell page = before.cell page

variable {mem : Nat}

theorem Fresh.store (fresh : Fresh mem before after) (contents : Page) :
    Fresh mem before { after with cell := update after.cell mem contents } :=
  ⟨fresh.free,
    fun owned => (fresh.exchange owned).trans
      (Exchange.store after (Multiset.mem_cons_self mem owned) contents),
    fun page different => (update_of_ne different _ _).trans (fresh.same page different)⟩

variable {page : Nat}

theorem Fresh.kept (fresh : Fresh mem before after) (proper : Proper before owned)
    (member : page ∈ owned) : after.cell page = before.cell page := by
  apply fresh.same
  rintro rfl
  exact proper.not_mem_free member fresh.free

theorem kalloc_spec (memory : Memory) :
    wp allowed kalloc memory fun result after =>
      match result with
      | none => after = memory
      | some pa => Fresh pa memory after := by
  simp only [kalloc, wp_bind, Prog.wp_anyBool]
  intro failed
  cases failed with
  | true => simp only [if_true, wp_pure]
  | false =>
    cases found : memory.free with
    | nil => simp [found]
    | cons pa rest =>
      simp only [Bool.false_eq_true, if_false, wp_bind, wp_get, found, wp_put, wp_fillPage, wp_pure]
      refine ⟨found ▸ List.mem_cons_self, fun owned => Exchange.alloc found _ owned, ?_⟩
      intro page different
      exact update_of_ne different _ _

theorem kfree_takes [KernelImage]
    (may : allowed "kfree" ∨ pa % pgSize = 0 ∧ KernelImage.kernelEnd ≤ pa ∧ pa < physTop) :
    wp allowed (kfree pa) memory fun _ after =>
      (∀ owned, Exchange memory (pa ::ₘ owned) after owned) ∧
        ∀ page, page ≠ pa → after.cell page = memory.cell page := by
  unfold kfree
  split
  · rename_i refused
    rcases may with may | taken
    · exact panics may
    · omega
  · simp only [wp_bind, wp_fillPage, wp_modify]
    refine ⟨fun owned => Exchange.release memory pa _ owned, ?_⟩
    intro page different
    exact update_of_ne different _ _

theorem kfree_spec [KernelImage] (pa : Nat) (memory : Memory) :
    wp MayPanic (kfree pa) memory fun _ after =>
      (∀ owned, Exchange memory (pa ::ₘ owned) after owned) ∧
        ∀ page, page ≠ pa → after.cell page = memory.cell page :=
  kfree_takes (.inl (by decide))

/-! ## Walking -/

/-- A page table gained page-table pages and nothing else. -/
structure Grown (level table : Nat) (before after : Memory) : Prop where
  exchange : Exchange before (tables before.cell level table) after (tables after.cell level table)
  wellFormed : WellFormed after.cell level table
  leaf : ∀ va, leafAt after.cell va level table = leafAt before.cell va level table
  more : tables before.cell level table ≤ tables after.cell level table

namespace Grown

variable {level table index lower : Nat} {first second third : Memory}

theorem refl (wellFormed : WellFormed first.cell level table) :
    Grown level table first first :=
  ⟨.refl _ _, wellFormed, fun _ => rfl, le_refl _⟩

theorem trans (left : Grown level table first second) (right : Grown level table second third) :
    Grown level table first third :=
  ⟨left.exchange.trans right.exchange, right.wellFormed,
    fun va => (right.leaf va).trans (left.leaf va), left.more.trans right.more⟩

theorem descend (bound : index < 512) (found : child first.cell table index = some lower)
    (proper : Proper first (tables first.cell (level + 1) table))
    (wellFormed : WellFormed first.cell (level + 1) table)
    (grown : Grown level lower first second) :
    Grown (level + 1) table first second ∧ second.cell table = first.cell table := by
  have split : tables first.cell (level + 1) table =
      tables first.cell level lower + table ::ₘ otherTables first.cell level table index := by
    rw [tables_succ bound, found, Option.elim_some, Multiset.add_cons]
  rw [split] at proper
  have root : second.cell table = first.cell table :=
    proper.untouched grown.exchange (Multiset.mem_cons_self _ _)
  have others : ∀ page ∈ otherTables first.cell level table index,
      second.cell page = first.cell page := fun page member =>
    proper.untouched grown.exchange (Multiset.mem_cons_of_mem member)
  have after : tables second.cell (level + 1) table =
      tables second.cell level lower + table ::ₘ otherTables first.cell level table index := by
    rw [tables_succ bound, child_congr root, found, Option.elim_some,
      otherTables_congr root others, Multiset.add_cons]
  refine ⟨⟨?_, ?_, ?_, ?_⟩, root⟩
  · rw [after, split]
    exact grown.exchange.frame _
  · intro other inside valid
    rw [pteAt_congr root] at valid ⊢
    have here := wellFormed other inside valid
    have elsewhere : child first.cell table other = some (pte2pa (pteAt first.cell table other)) :=
      if_pos valid
    refine ⟨here.1, ?_⟩
    by_cases same : other = index
    · subst other
      rw [found] at elsewhere
      cases elsewhere
      exact grown.wellFormed
    · apply here.2.congr
      intro page member
      exact others page (mem_otherTables_of_child inside same elsewhere member)
  · intro va
    rw [leafAt, leafAt, child_congr root]
    by_cases same : px (level + 1) va = index
    · rw [same, found]
      exact grown.leaf va
    · cases elsewhere : child first.cell table (px (level + 1) va) with
      | none => rfl
      | some sibling =>
        apply leafAt_congr
        intro page member
        exact others page (mem_otherTables_of_child (px_lt _ _) same elsewhere member)
  · rw [after, split]
    exact Multiset.add_le_add_right grown.more

theorem attach (third : Memory) (bound : index < 512)
    (missing : child first.cell table index = none)
    (proper : Proper first (tables first.cell (level + 1) table))
    (wellFormed : WellFormed first.cell (level + 1) table) (fresh : Fresh page first second)
    (zero : second.cell page = fun _ => 0) (free : third.free = second.free)
    (stored : third.cell = setEntry second.cell table index (pa2pte page ||| pteV)) :
    Grown (level + 1) table first third ∧ child third.cell table index = some page := by
  have good := proper.good page (Multiset.mem_add.mpr (.inl (Multiset.mem_coe.mpr fresh.free)))
  have small : pa2pte page ||| pteV < 2 ^ 64 := by
    have := good.2
    unfold physTop kernBase at this
    exact entry_lt (by omega) (by decide)
  have notOwned : ∀ other ∈ tables first.cell (level + 1) table, other ≠ page := by
    rintro other member rfl
    exact proper.not_mem_free member fresh.free
  have notTable : page ≠ table := Ne.symm (notOwned table table_mem_tables)
  have split : tables first.cell (level + 1) table =
      table ::ₘ otherTables first.cell level table index := by
    rw [tables_succ bound, missing, Option.elim_none, zero_add]
  have tableNotOther : table ∉ otherTables first.cell level table index := by
    have nodup := proper.owned_nodup
    rw [split] at nodup
    exact (Multiset.nodup_cons.mp nodup).1
  have others : ∀ other ∈ otherTables first.cell level table index,
      third.cell other = first.cell other := by
    intro other member
    have outside : other ≠ table := by
      rintro rfl
      exact tableNotOther member
    have inside : other ∈ tables first.cell (level + 1) table := by
      rw [split]
      exact Multiset.mem_cons_of_mem member
    rw [stored, setEntry_of_ne outside, fresh.same other (notOwned other inside)]
  have entry : ∀ other, pteAt third.cell table other =
      if index = other then pa2pte page ||| pteV else pteAt first.cell table other := by
    intro other
    rw [stored, pteAt_setEntry bound small, pteAt_congr (fresh.same table (Ne.symm notTable))]
  have pageZero : third.cell page = fun _ => 0 := by
    rw [stored, setEntry_of_ne notTable, zero]
  have found : child third.cell table index = some page := by
    rw [child, entry, if_pos rfl, hasFlag_entry (by decide), pte2pa_entry good.1 (by decide)]
    rfl
  have elsewhere : ∀ other, other ≠ index →
      child third.cell table other = child first.cell table other := by
    intro other different
    rw [child, child, entry, if_neg (Ne.symm different)]
  have tables_eq : ∀ other < 512, other ≠ index → ∀ lower,
      child first.cell table other = some lower →
      ∀ page ∈ tables first.cell level lower, third.cell page = first.cell page :=
    fun other inside different lower next page member =>
      others page (mem_otherTables_of_child inside different next member)
  have after : tables third.cell (level + 1) table =
      page ::ₘ tables first.cell (level + 1) table := by
    have rest : otherTables third.cell level table index =
        otherTables first.cell level table index := by
      rw [otherTables, otherTables, below_congr]
      · exact fun other inside => elsewhere other (Finset.ne_of_mem_erase inside)
      · intro other inside lower next
        rcases Finset.mem_erase.mp inside with ⟨different, bound⟩
        exact tables_congr (tables_eq other (mem_entries.mp bound) different lower next)
    rw [tables_succ bound, found, Option.elim_some, tables_zero pageZero, rest, split,
      Multiset.singleton_add, Multiset.cons_swap]
  refine ⟨⟨?_, ?_, ?_, ?_⟩, found⟩
  · rw [after]
    have moved := fresh.exchange (tables first.cell (level + 1) table)
    constructor
    · rw [free]
      exact moved.conserved
    · intro other outside
      rw [Multiset.mem_add, not_or] at outside
      have different : other ≠ table := by
        rintro rfl
        exact outside.2 table_mem_tables
      rw [stored, setEntry_of_ne different]
      apply fresh.same
      rintro rfl
      exact outside.1 (Multiset.mem_coe.mpr fresh.free)
  · intro other inside valid
    rw [entry] at valid ⊢
    split at valid
    · rename_i equal
      rw [if_pos equal, hasFlag_entry (by decide), pte2pa_entry good.1 (by decide)]
      exact ⟨rfl, .zero pageZero⟩
    · rename_i different
      rw [if_neg different]
      have here := wellFormed other inside valid
      exact ⟨here.1, here.2.congr (tables_eq other inside (Ne.symm different) _ (if_pos valid))⟩
  · intro va
    rw [leafAt, leafAt]
    by_cases equal : px (level + 1) va = index
    · rw [equal, found, missing]
      exact leafAt_zero pageZero
    · rw [elsewhere _ equal]
      cases next : child first.cell table (px (level + 1) va) with
      | none => rfl
      | some lower => exact leafAt_congr (tables_eq _ (px_lt _ _) equal lower next)
  · rw [after]
    exact Multiset.le_cons_self _ _

end Grown

/-- `walk` with `alloc`: the page table may grow, and the entry that is found is
that of `va`. -/
theorem walkFrom_alloc_spec (va level table : Nat) (memory : Memory)
    (proper : Proper memory (tables memory.cell level table))
    (wellFormed : WellFormed memory.cell level table) :
    wp allowed (walkFrom true va level table) memory fun result after =>
      Grown level table memory after ∧ ∀ low index, result = some (low, index) →
        index = px 0 va ∧ lowest after.cell va level table = some low := by
  induction level generalizing table memory with
  | zero =>
    rw [walkFrom, wp, wp_pure]
    refine ⟨.refl wellFormed, ?_⟩
    rintro low index ⟨⟩
    exact ⟨rfl, rfl⟩
  | succ level induction =>
    -- the walk goes on below an entry that is there, or was just made
    have goOn : ∀ lower (middle : Memory), Grown (level + 1) table memory middle →
        child middle.cell table (px (level + 1) va) = some lower →
        wp allowed (walkFrom true va level lower) middle fun result after =>
          Grown (level + 1) table memory after ∧ ∀ low index, result = some (low, index) →
            index = px 0 va ∧ lowest after.cell va (level + 1) table = some low := by
      intro lower middle grown found
      have inner := proper.exchange grown.exchange
      have split := tables_succ (px_lt (level + 1) va) ▸ inner
      rw [found, Option.elim_some, ← Multiset.add_cons] at split
      have valid : hasFlag (pteAt middle.cell table (px (level + 1) va)) pteV = true := by
        by_contra invalid
        rw [child, if_neg invalid] at found
        cases found
      have below := (grown.wellFormed _ (px_lt _ _) valid).2
      rw [child, if_pos valid, Option.some.injEq] at found
      rw [found] at below
      apply wp_mono (induction lower middle split.left below)
      rintro result after ⟨further, low⟩
      have whole := Grown.descend (px_lt (level + 1) va) (by rw [child, if_pos valid, found])
        inner grown.wellFormed further
      refine ⟨grown.trans whole.1, fun page index equal => ?_⟩
      have here := low page index equal
      refine ⟨here.1, ?_⟩
      rw [lowest, child_congr whole.2, child, if_pos valid, found]
      exact here.2
    simp only [walkFrom, wp_bind, wp_loadPte]
    split
    · rename_i valid
      exact goOn _ memory (.refl wellFormed) (if_pos valid)
    · rename_i invalid
      rw [if_true, wp_bind]
      apply wp_mono (kalloc_spec memory)
      rintro result allocated allocation
      cases result with
      | none =>
        subst allocation
        exact wp_pure.mpr ⟨.refl wellFormed, fun low index => by rintro ⟨⟩⟩
      | some page =>
        simp only [wp_bind, wp_fillPage, wp_storePte]
        have missing : child memory.cell table (px (level + 1) va) = none := if_neg invalid
        have grown := Grown.attach
          { free := allocated.free
            cell := setEntry (update allocated.cell page fun _ => 0) table
              (px (level + 1) va) (pa2pte page ||| pteV) }
          (px_lt _ _) missing proper wellFormed (allocation.store fun _ => 0)
          (update_self _ _ _) rfl rfl
        exact goOn page _ grown.1 grown.2

theorem walkFrom_noalloc (va level table : Nat) (memory : Memory)
    {post : Option (Nat × Nat) → Memory → Prop}
    (holds : post ((lowest memory.cell va level table).map (·, px 0 va)) memory) :
    wp allowed (walkFrom false va level table) memory post := by
  induction level generalizing table with
  | zero => exact wp_pure.mpr holds
  | succ level induction =>
    simp only [walkFrom, wp_bind, wp_loadPte]
    rw [lowest] at holds
    split
    · rename_i valid
      have next : child memory.cell table (px (level + 1) va) =
          some (pte2pa (pteAt memory.cell table (px (level + 1) va))) := if_pos valid
      rw [next] at holds
      exact induction _ holds
    · rename_i invalid
      have missing : child memory.cell table (px (level + 1) va) = none := if_neg invalid
      rw [missing] at holds
      exact wp_pure.mpr holds

variable {cell : Nat → Page} {level table va : Nat}

theorem leafAt_of_lowest_eq_none (missing : lowest cell va level table = none) :
    leafAt cell va level table = 0 := by
  induction level generalizing table with
  | zero => cases missing
  | succ level induction =>
    rw [lowest] at missing
    rw [leafAt]
    cases next : child cell table (px (level + 1) va) with
    | none => rfl
    | some lower =>
      rw [next] at missing
      exact induction missing

theorem leafAt_of_lowest (found : lowest cell va level table = some low) :
    leafAt cell va level table = pteAt cell low (px 0 va) := by
  induction level generalizing table with
  | zero =>
    cases found
    rfl
  | succ level induction =>
    rcases lowest_succ found with ⟨lower, next, found⟩
    rw [leafAt, next]
    exact induction found

theorem lowest_of_valid (valid : hasFlag (leafAt cell va level table) pteV = true) :
    ∃ low, lowest cell va level table = some low := by
  cases found : lowest cell va level table with
  | none =>
    rw [leafAt_of_lowest_eq_none found] at valid
    exact absurd valid (by decide)
  | some low => exact ⟨low, rfl⟩

end Xv6.Vm
