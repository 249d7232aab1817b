import Xv6.Proc.Sbrk

/-! # Read-only pages

`exec` maps the text of a program without `PTE_W`. `copyout` asks `walkaddr` for the page
of an address, and `walkaddr` looks at `PTE_V` and `PTE_U` only. -/

namespace Xv6.Kernel

open StateProg Vm

/-- User memory that is mapped without `PTE_W`. -/
def ReadOnly (cell : Nat → Page) (table va : Nat) : Prop :=
  Accessible cell table va ∧ hasFlag (leafAt cell va 2 table) pteW = false

section Calls

variable [KernelImage]

variable {table trapframe va len : Nat} {memory : Memory}

theorem userPage_injective (space : Space memory.cell table trapframe)
    (proper : Proper memory (Vm.space memory.cell table))
    (found : userPage memory.cell table va = some pa)
    (found' : userPage memory.cell table other = some pa) : va / pgSize = other / pgSize := by
  have facts : ∀ va pa, userPage memory.cell table va = some pa → va / pgSize ∈ ownVpns ∧
      hasFlag (leafAt memory.cell (va / pgSize * pgSize) 2 table) pteV = true ∧
      pa = pte2pa (leafAt memory.cell (va / pgSize * pgSize) 2 table) := by
    intro va pa found
    rw [← userPage_roundDown] at found
    rcases userPage_eq_some found with ⟨inRange, valid, user, same⟩
    have own := space.own (Nat.mul_mod_left _ _) inRange user
    rw [Nat.mul_div_cancel _ (by decide)] at own
    exact ⟨own, valid, same⟩
  rcases facts va pa found with ⟨own, valid, same⟩
  rcases facts other pa found' with ⟨own', valid', same'⟩
  have whole : userPages memory.cell table =
    mappedPages true memory.cell table ownVpns := (if_pos rfl).symm
  have nodup := (Multiset.nodup_add.mp proper.owned_nodup).2.1
  rw [whole] at nodup
  exact mappedPages_injective nodup own own' valid valid' (same.symm.trans same')

omit [KernelImage] in
theorem ReadOnly.same {cell : Nat → Page} (readOnly : ReadOnly cell table other)
    (accessible : Accessible cell table va) (page : va / pgSize = other / pgSize) :
    ReadOnly cell table va := by
  have wide : ∀ va, Accessible cell table va → va < 2 ^ 39 := by
    intro va accessible
    rcases Option.isSome_iff_exists.mp accessible with ⟨pa, found⟩
    have inRange := (userPage_eq_some found).1
    unfold maxVa at inRange
    omega
  refine ⟨accessible, ?_⟩
  rw [leafAt_page (wide va accessible), page, ← leafAt_page (wide other readOnly.1)]
  exact readOnly.2

omit [KernelImage] in
theorem storeBytes_succ (apart : TablesApart memory.cell table)
    (reach : Reach memory.cell table va len n) (below : i < n) :
    userByte (storeBytes (userPage memory.cell table)
      (((userBytes memory.cell table va len).map (· + 1)).take n) va memory.cell) table (va + i) =
      userByte memory.cell table (va + i) + 1 := by
  rcases Option.isSome_iff_exists.mp (reach.accessible i below) with ⟨pa, found⟩
  have within := reach.within
  have length : (((userBytes memory.cell table va len).map (· + 1)).take n).length = n := by
    rw [List.length_take, List.length_map, userBytes_length]
    omega
  have inside : i < (((userBytes memory.cell table va len).map (· + 1)).take n).length := by
    rw [length]
    exact below
  rcases storeBytes_last _ memory.cell inside ⟨found, rfl⟩ with
    ⟨last, bound, ⟨hit, offset⟩, stored⟩
  rw [length] at bound
  rw [userByte_eq (by rw [apart.userPage_storeBytes]; exact found), stored, userByte_eq found,
    ← offset, ← userByte_eq hit]
  simp [List.getD, userBytes, bound, show last < len by omega]

/-- `copyout` leaves read-only pages alone, whatever is copied, exactly where it comes to
none of them before the first address that is not accessible. -/
theorem copyout_respects_readOnly_iff (proper : Proper memory (Vm.space memory.cell table))
    (space : Space memory.cell table trapframe) :
    (∀ src : List UInt8, src.length = len →
      wp NoPanic (copyout table va src) memory fun done after =>
        (∀ other, ReadOnly memory.cell table other →
          userByte after.cell table other = userByte memory.cell table other) ∧
        ((∃ i < len, ReadOnly memory.cell table (va + i)) → done = false)) ↔
      ∀ n, Reach memory.cell table va len n → ∀ i < n, ¬ReadOnly memory.cell table (va + i) := by
  have apart := space.tablesApart proper
  constructor
  · intro respects n reach i below readOnly
    have length : ((userBytes memory.cell table va len).map (· + 1)).length = len := by
      rw [List.length_map, userBytes_length]
    rcases Prog.wp_meet (fun _ => id) (respects _ length)
      (copyoutFrom_stores apart _ (Nat.le_refl _) fun _ _ => rfl) with
      ⟨done, after, ⟨same, _⟩, n', reach', _, rfl⟩
    rw [length] at reach'
    obtain rfl := reach.unique reach'
    have changed := storeBytes_succ apart reach below
    rw [same _ readOnly] at changed
    exact absurd changed (by simp)
  · intro none src length
    subst length
    apply Prog.wp_mono (copyoutFrom_stores apart src.length (Nat.le_refl _) fun _ _ => rfl)
    intro done after result
    rcases result with ⟨n, reach, rfl, rfl⟩
    have within := reach.within
    constructor
    · intro other readOnly
      rcases Option.isSome_iff_exists.mp readOnly.1 with ⟨pa, found⟩
      have found' := found
      rw [← apart.userPage_storeBytes (src.take n) va] at found'
      rw [userByte_eq found, userByte_eq found', storeBytes_elsewhere]
      -- an address that leads to the page of `other` would be read-only, too
      intro i below here
      rw [List.length_take] at below
      have page := userPage_injective space proper here found
      have accessible : Accessible memory.cell table (va + i) := by
        rw [Accessible, here]
        rfl
      exact none n reach i (by omega) (readOnly.same accessible page)
    · intro some
      rcases some with ⟨i, below, readOnly⟩
      have later : n ≤ i := by
        by_contra early
        exact none n reach i (by omega) readOnly
      exact decide_eq_false (by omega)

end Calls

section Small

attribute [local instance] smallImage

theorem copyout_respects_readOnly_iff_small : ∃ table trapframe,
    (smallKernel.proc 0).pagetable = some table ∧
    Proper smallKernel.memory (Vm.space smallKernel.memory.cell table) ∧
    Space smallKernel.memory.cell table trapframe ∧
    ((∀ src : List UInt8, src.length = 4 →
      wp NoPanic (copyout table 4094 src) smallKernel.memory fun done after =>
        (∀ other, ReadOnly smallKernel.memory.cell table other →
          userByte after.cell table other = userByte smallKernel.memory.cell table other) ∧
        ((∃ i < 4, ReadOnly smallKernel.memory.cell table (4094 + i)) → done = false)) ↔
      ∀ n, Reach smallKernel.memory.cell table 4094 4 n →
        ∀ i < n, ¬ReadOnly smallKernel.memory.cell table (4094 + i)) := by
  rcases smallKernel_balanced with ⟨boot, balanced⟩
  have running : Running smallKernel 0 := ⟨mem_procSlots.mpr (by decide), by decide +kernel⟩
  rcases balanced.pagetable running with ⟨table, found⟩
  rcases (balanced.world.procOk running.slot).space table found with ⟨trapframe, _, space⟩
  have proper := balanced.world.properSpace running.slot found
  exact ⟨table, trapframe, found, proper, space, copyout_respects_readOnly_iff proper space⟩

end Small

/-! A program whose only segment is text, and which makes a pipe: `pipe` gets the address of
the text for the two descriptors. -/

section Small

attribute [local instance] smallImage

/-- The ELF header, one program header, and a jump. -/
def textProgram : List UInt8 :=
  [0x7F, 0x45, 0x4C, 0x46] ++ List.replicate 20 0 ++ Bytes.encode 8 0 ++ Bytes.encode 8 64 ++
    List.replicate 16 0 ++ Bytes.encode 2 1 ++ List.replicate 6 0 ++
  (Bytes.encode 4 elfProgLoad ++ Bytes.encode 4 5 ++ Bytes.encode 8 120 ++ Bytes.encode 8 0 ++
    Bytes.encode 8 0 ++ Bytes.encode 8 4 ++ Bytes.encode 8 4 ++ Bytes.encode 8 0) ++
  [0x6F, 0, 0, 0]

/-- `exec` up to where it commits to the new image. -/
def buildImage (trapframe : Nat) (file : List UInt8) : MemProg (Except Nat Image) := do
  match ← procPagetable trapframe with
  | none => return .error 0
  | some pagetable => loadImage pagetable (readi file 0 elfhdrSize) file []

def textTrapframe : Nat := physTop - pgSize

def textMemory : Memory where
  free := (List.range 20).map fun i => physTop - (i + 2) * pgSize
  cell := fun _ _ => 0

def textBuild : Outcome (Except Nat Image × Memory) :=
  Prog.run StateOp.handle (buildImage textTrapframe textProgram) textMemory []

def textBuilt : Memory := (textBuild.getD (.error 0, textMemory)).2

def textImage : Image :=
  (textBuild.getD (.error 0, textMemory)).1.toOption.getD ⟨0, 0, 0, 0, 0⟩

/-- The page of the text. -/
def textPage : Nat := pte2pa (leafAt textBuilt.cell 0 2 textImage.pagetable)

/-- What `pipe` does with the first descriptor. -/
def textStore : Outcome (Bool × Memory) :=
  Prog.run StateOp.handle (copyout textImage.pagetable 0 (Bytes.encode 4 0)) textBuilt []

theorem toOption_getD {Error Value : Type} {result : Except Error Value} (default : Value)
    (ok : result.isOk = true) : result = .ok (result.toOption.getD default) := by
  cases result with
  | error error => cases ok
  | ok value => rfl

theorem copyout_overwrites_text :
    textBuild = .next (.ok textImage, textBuilt) ∧
    hasFlag (leafAt textBuilt.cell 0 2 textImage.pagetable) pteU = true ∧
    hasFlag (leafAt textBuilt.cell 0 2 textImage.pagetable) pteW = false ∧
    ∃ after, textStore = .next (true, after) ∧
      (after.cell textPage).byteAt 0 ≠ (textBuilt.cell textPage).byteAt 0 := by
  have image : (textBuild.getD (.error 0, textMemory)).1 = .ok textImage :=
    toOption_getD _ (by decide +kernel)
  have built : textBuild = .next (.ok textImage, textBuilt) :=
    Outcome.eq_next_pair _ (by decide +kernel) image
  have stored : textStore = .next (true, (textStore.getD (false, textMemory)).2) :=
    Outcome.eq_next_pair _ (by decide +kernel) (by decide +kernel)
  have before : (textBuilt.cell textPage).byteAt 0 = 0x6F := by decide +kernel
  have after : ((textStore.getD (false, textMemory)).2.cell textPage).byteAt 0 = 0 := by
    decide +kernel
  refine ⟨built, by decide +kernel, by decide +kernel, _, stored, ?_⟩
  rw [before, after]
  decide

end Small

end Xv6.Kernel
