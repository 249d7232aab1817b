import Xv6.Proc.Segments

/-! # The argument stack

`exec` takes one page above the guard page for the stack and pushes the strings
of `argv` and the array of pointers to them. -/

namespace Xv6.Kernel

open StateProg Vm
open Prog (wp_bind wp_mono wp_pure)

section Pushed

variable {image : Nat → UInt8} {top sp : Nat} {pushed : List (Nat × List UInt8)}

/-- The strings that were pushed are below `top` and above `sp`, each below the one before. -/
structure Pushed (image : Nat → UInt8) (top sp : Nat) (pushed : List (Nat × List UInt8)) :
    Prop where
  bound : sp ≤ top
  above : ∀ entry ∈ pushed, sp ≤ entry.1
  below : ∀ entry ∈ pushed, entry.1 + entry.2.length < top
  copy : ∀ entry ∈ pushed, ∀ i ≤ entry.2.length, image (entry.1 + i) = (entry.2 ++ [0]).getD i 0
  apart : pushed.Pairwise fun earlier later => later.1 + later.2.length < earlier.1

theorem Pushed.lower {bytes : List UInt8} (holds : Pushed image top sp pushed)
    (below : start + bytes.length ≤ sp) (lower : low ≤ sp) :
    Pushed (store image start bytes) top low pushed where
  bound := by
    have := holds.bound
    omega
  above entry member := by
    have := holds.above entry member
    omega
  below := holds.below
  copy entry member i inside := by
    have := holds.above entry member
    rw [store_outside (by omega)]
    exact holds.copy entry member i inside
  apart := holds.apart

theorem Pushed.push {text : List UInt8} (holds : Pushed image top sp pushed)
    (below : start + (text.length + 1) ≤ sp) :
    Pushed (store image start (text ++ [0])) top start (pushed ++ [(start, text)]) := by
  have length : (text ++ [0]).length = text.length + 1 := by simp
  have lower : Pushed (store image start (text ++ [0])) top start pushed :=
    holds.lower (by omega) (by omega)
  have bound := holds.bound
  refine ⟨lower.bound, ?_, ?_, ?_, ?_⟩
  · intro entry member
    rcases List.mem_append.mp member with old | new
    · exact lower.above entry old
    · rw [List.mem_singleton.mp new]
  · intro entry member
    rcases List.mem_append.mp member with old | new
    · exact lower.below entry old
    · rw [List.mem_singleton.mp new]
      dsimp only
      omega
  · intro entry member i inside
    rcases List.mem_append.mp member with old | new
    · exact lower.copy entry old i inside
    · rw [List.mem_singleton.mp new] at inside ⊢
      exact store_inside (by dsimp only at inside; omega)
  · rw [List.pairwise_append]
    refine ⟨holds.apart, List.pairwise_singleton _ _, ?_⟩
    intro entry old other new
    rw [List.mem_singleton.mp new]
    have := holds.above entry old
    dsimp only
    omega

end Pushed

/-- The bytes that the strings take on the stack. -/
def stringsNeed (texts : List (List UInt8)) : Nat :=
  (texts.map fun text => (text.length + 16) / 16 * 16).sum

/-- The bytes that the strings and the array of pointers take on the stack. -/
def stackNeed (texts : List (List UInt8)) : Nat :=
  stringsNeed texts + ((texts.length + 1) * 8 + 15) / 16 * 16

/-- The string at the beginning of a page. -/
def textAt (memory : Memory) (arg : Nat) : List UInt8 :=
  ((memory.cell arg).read 0 pgSize).takeWhile (· != 0)

theorem sub64_of_le (bound : left < 2 ^ 64) (le : right ≤ left) :
    sub64 left right = left - right := by
  unfold sub64
  omega

variable [KernelImage] {allowed : String → Prop} {before memory : Memory}
  {table trapframe sz : Nat} {guard : Option Nat} {image : Nat → UInt8}

/-- The address space has a page for the stack at the top. -/
structure StackPage (sz : Nat) (guard : Option Nat) : Prop where
  aligned : sz % pgSize = 0
  room : 2 * pgSize ≤ sz
  bound : sz ≤ trapframeVa
  user : some (sz / pgSize - 1) ≠ guard

omit [KernelImage] in
theorem StackPage.inside (stack : StackPage sz guard) (sp n : Nat) (base : sz - pgSize ≤ sp)
    (positive : 0 < n) (top : sp + n ≤ sz) :
    sp / pgSize < numPages sz ∧ some (sp / pgSize) ≠ guard ∧ sp % pgSize + n ≤ pgSize := by
  rcases stack with ⟨aligned, room, bound, user⟩
  have page : sp / pgSize = sz / pgSize - 1 := by
    unfold pgSize at *
    omega
  rw [numPages_of_aligned bound aligned, page]
  refine ⟨?_, user, ?_⟩
  · unfold pgSize at *
    omega
  · unfold pgSize at *
    omega

theorem pushArgs_spec (placed : Placed allowed) (stack : StackPage sz guard) (argv : List Nat)
    (apart : ∀ arg ∈ argv, arg ∉ (before.free : Multiset Nat) + Vm.space before.cell table)
    (short : ∀ arg ∈ argv, (textAt before arg).length < pgSize) (few : argc + argv.length < maxArg)
    (base : sz - pgSize ≤ sp) (aligned : sp % 16 = 0)
    (loading : Loading allowed before memory table trapframe sz guard image)
    (holds : Pushed image sz sp pushed) :
    wp allowed (pushArgs table (sz - pgSize) argv argc sp (pushed.map Prod.fst)) memory
      fun result after => ∃ image',
        Loading allowed before after table trapframe sz guard image' ∧
        (∀ va < sz - pgSize, image' va = image va) ∧
        (∀ sp' ustack, result = some (sp', ustack) → sz - pgSize ≤ sp' ∧ sp' % 16 = 0 ∧
          sp' + stringsNeed (argv.map (textAt before)) = sp ∧
          ∃ pushed', Pushed image' sz sp' pushed' ∧ ustack = pushed'.map Prod.fst ∧
            pushed'.map Prod.snd = pushed.map Prod.snd ++ argv.map (textAt before)) ∧
        (result = none → allowed noAddress ∨
          sp < sz - pgSize + stringsNeed (argv.map (textAt before))) := by
  induction argv generalizing argc sp pushed image memory with
  | nil =>
    refine wp_pure.mpr ⟨image, loading, fun _ _ => rfl, ?_, fun impossible => by cases impossible⟩
    rintro sp' ustack ⟨⟩
    exact ⟨base, aligned, rfl, pushed, holds, rfl, by simp⟩
  | cons arg rest induction =>
    have same : memory.cell arg = before.cell arg :=
      loading.change.exchange.untouched arg (apart arg List.mem_cons_self)
    have text : ((memory.cell arg).read 0 pgSize).takeWhile (· != 0) = textAt before arg := by
      rw [same]
      rfl
    have length := short arg List.mem_cons_self
    have top := holds.bound
    have room := stack.room
    have bound := stack.bound
    have lower : sub64 sp ((textAt before arg).length + 1) -
        sub64 sp ((textAt before arg).length + 1) % 16 =
          sp - ((textAt before arg).length + 16) / 16 * 16 := by
      rw [sub64_of_le (by unfold trapframeVa trampolineVa maxVa at bound; omega) (by omega)]
      omega
    rw [List.length_cons] at few
    unfold pushArgs
    rw [if_neg (by omega)]
    simp only [readPage, wp_bind, wp_get, wp_pure, text, lower]
    generalize equal : sp - ((textAt before arg).length + 16) / 16 * 16 = next
    rw [List.map_cons, stringsNeed, List.map_cons, List.sum_cons, ← stringsNeed]
    split
    · refine wp_pure.mpr ⟨image, loading, fun _ _ => rfl, by simp, fun _ => .inr ?_⟩
      omega
    · rename_i enough
      have count : (textAt before arg ++ [0]).length = (textAt before arg).length + 1 := by simp
      have fits := stack.inside next ((textAt before arg).length + 1) (Nat.not_lt.mp enough)
        (Nat.succ_pos _) (by omega)
      rw [← count] at fits
      apply wp_bind.mpr
      apply wp_mono (loading.copyout placed (by simp) fits.1 fits.2.1 fits.2.2)
      intro done middle result
      rcases result with ⟨went, failed⟩
      cases done with
      | false =>
        exact wp_pure.mpr ⟨image, (failed rfl).2, fun _ _ => rfl, by simp,
          fun _ => .inl (failed rfl).1⟩
      | true =>
        have ustack : pushed.map Prod.fst ++ [next] =
            (pushed ++ [(next, textAt before arg)]).map Prod.fst := by simp
        simp only [if_true, ustack]
        apply wp_mono (induction (fun other member => apart other (List.mem_cons_of_mem _ member))
          (fun other member => short other (List.mem_cons_of_mem _ member)) (by omega)
          (Nat.not_lt.mp enough) (by omega) (went rfl) (holds.push (by omega)))
        intro result after final
        rcases final with ⟨image', loaded, kept, pushedAll, tooBig⟩
        refine ⟨image', loaded, ?_, ?_, ?_⟩
        · intro va low
          rw [kept va low, store_outside (by omega)]
        · intro sp' ustack' equal
          rcases pushedAll sp' ustack' equal with ⟨base', aligned', need, all, rest⟩
          refine ⟨base', aligned', by omega, all, ?_⟩
          simpa using rest
        · intro none
          rcases tooBig none with weak | big
          · exact .inl weak
          · exact .inr (by omega)

theorem Loading.roundUp (loading : Loading allowed before memory table trapframe sz guard image) :
    Loading allowed before memory table trapframe (pgRoundUp sz) guard image := by
  have bound := pgRoundUp_le loading.bound
  have pages := numPages_of_aligned bound (pgRoundUp_aligned sz)
  rw [← numPages] at pages
  refine ⟨⟨bound, ?_, ?_⟩, loading.safe, loading.change, loading.space, ?_⟩
  · rw [pages]
    exact loading.maps
  · rw [pages]
    exact loading.page
  · rw [pages]
    exact loading.zero

theorem Loading.clear (loading : Loading allowed before memory table trapframe sz none image)
    (aligned : va % pgSize = 0) (inside : va / pgSize < numPages sz) :
    wp allowed (uvmclear table va) memory fun _ after =>
      Loading allowed before after table trapframe sz (some (va / pgSize)) image := by
  have low := loading.vpn_lt inside
  have whole : va / pgSize * pgSize = va := Nat.div_mul_cancel (Nat.dvd_of_mod_eq_zero aligned)
  have below : va < trapframeVa ∧ va < maxVa ∧ va < 2 ^ 39 := by
    unfold trapframeVa trampolineVa maxVa pgSize at *
    omega
  have valid : hasFlag (leafAt memory.cell va 2 table) pteV = true := by
    rw [← whole]
    exact loading.maps.valid low inside
  apply wp_mono (uvmclear_changes below.2.1 loading.safe.toProper.left loading.space.wellFormed
    valid)
  intro _ after changed
  have contents := changed.clearU aligned below.1 valid
  refine ⟨⟨loading.bound, contents.maps _ loading.maps, ?_⟩,
    loading.safe.exchange contents.exchange, loading.change.trans contents.toSpaceChange,
    contents.toSpaceChange.space loading.space, loading.zero⟩
  intro vpn present
  rcases loading.page vpn present with ⟨pte, here, user⟩
  rcases userPageAt_eq_some.mp here with ⟨valid', rfl, same⟩
  have own := own_of_lt_div (loading.vpn_lt present)
  have kept := loading.safe.toProper.untouched changed.exchange (mem_userPages_own own valid')
  have slot := sameSlot_page aligned below.2.2 (mem_ownVpns.mp own).1
  by_cases equal : vpn = va / pgSize
  · have entry := changed.here _ (slot.mpr equal)
    rw [← whole, ← equal] at entry
    refine ⟨_, userPageAt_eq_some.mpr ⟨?_, rfl, ?_⟩, ?_⟩
    · rw [entry, hasFlag_clearU (by decide)]
      exact valid'
    · rw [entry, pte2pa_clearU (leafAt_lt valid'), kept]
      exact same
    · rw [entry, equal, hasFlag, Nat.and_assoc]
      exact iff_of_false (by simp [pteU]) fun different => different rfl
  · have leaf := changed.elsewhere _ (mt slot.mp equal)
    refine ⟨_, userPageAt_eq_some.mpr ⟨?_, leaf.symm, ?_⟩, ?_⟩
    · rw [leaf]
      exact valid'
    · rw [kept]
      exact same
    · rw [user]
      exact iff_of_true (Option.some_ne_none _) fun both => equal (Option.some.inj both)

/-- The stack of a new program: the array of pointers, and the strings above it. -/
structure ArgStack (image : Nat → UInt8) (sz sp : Nat) (texts : List (List UInt8)) : Prop where
  aligned : sp % 16 = 0
  base : sz - pgSize ≤ sp
  array : ∃ pushed, Pushed image sz (sp + (texts.length + 1) * 8) pushed ∧
    pushed.map Prod.snd = texts ∧
    ∀ i < (texts.length + 1) * 8,
      image (sp + i) = (Bytes.encodeAll 8 (pushed.map Prod.fst ++ [0])).getD i 0

theorem pushStack_spec (placed : Placed allowed) (stack : StackPage sz guard) (argv : List Nat)
    (apart : ∀ arg ∈ argv, arg ∉ (before.free : Multiset Nat) + Vm.space before.cell table)
    (short : ∀ arg ∈ argv, (textAt before arg).length < pgSize) (few : argv.length < maxArg)
    (loading : Loading allowed before memory table trapframe sz guard image) :
    wp allowed (pushStack table sz argv) memory fun result after => ∃ image',
      Loading allowed before after table trapframe sz guard image' ∧
      (∀ va < sz - pgSize, image' va = image va) ∧
      (∀ sp, result = some sp → ArgStack image' sz sp (argv.map (textAt before)) ∧
        stackNeed (argv.map (textAt before)) ≤ pgSize) ∧
      (result = none → allowed noAddress ∨ pgSize < stackNeed (argv.map (textAt before))) := by
  have bound := stack.bound
  have room := stack.room
  have empty : Pushed image sz sz [] := ⟨Nat.le_refl sz, by simp, by simp, by simp, .nil⟩
  have aligned : sz % 16 = 0 := by
    have := stack.aligned
    unfold pgSize at this
    omega
  have base : sub64 sz pgSize = sz - pgSize :=
    sub64_of_le (by unfold trapframeVa trampolineVa maxVa at bound; omega) (by omega)
  unfold pushStack
  rw [base]
  apply wp_bind.mpr
  apply wp_mono (pushArgs_spec placed stack argv apart short (by omega) (Nat.sub_le _ _) aligned
    loading empty)
  intro result middle final
  rcases final with ⟨image₁, loaded, kept, pushedAll, tooBig⟩
  cases result with
  | none =>
    refine wp_pure.mpr ⟨image₁, loaded, kept, by simp, fun _ => ?_⟩
    rcases tooBig rfl with weak | big
    · exact .inl weak
    · refine .inr ?_
      unfold stackNeed
      omega
  | some result =>
    rcases result with ⟨sp, ustack⟩
    rcases pushedAll sp ustack rfl with ⟨low, sp16, need, pushed, holds, rfl, texts⟩
    have count : (pushed.map Prod.fst ++ [0]).length = argv.length + 1 := by
      have := congrArg List.length texts
      simp only [List.length_map, List.length_append] at this
      simp [this]
    have length : (Bytes.encodeAll 8 (pushed.map Prod.fst ++ [0])).length =
        (argv.length + 1) * 8 := by
      rw [Bytes.encodeAll_length, count, Nat.mul_comm]
    have few' : (argv.length + 1) * 8 ≤ sp := by
      unfold maxArg at few
      unfold pgSize at *
      omega
    have lower : sub64 sp ((argv.length + 1) * 8) - sub64 sp ((argv.length + 1) * 8) % 16 =
        sp - ((argv.length + 1) * 8 + 15) / 16 * 16 := by
      rw [sub64_of_le (by unfold trapframeVa trampolineVa maxVa at bound; omega) few']
      omega
    have whole : stackNeed (argv.map (textAt before)) =
        stringsNeed (argv.map (textAt before)) + ((argv.length + 1) * 8 + 15) / 16 * 16 := by
      rw [stackNeed, List.length_map]
    simp only [count, lower]
    rw [if_neg (by omega), whole]
    generalize equal : sp - ((argv.length + 1) * 8 + 15) / 16 * 16 = next
    split
    · refine wp_pure.mpr ⟨image₁, loaded, kept, by simp, fun _ => .inr ?_⟩
      omega
    · rename_i enough
      have fits := stack.inside next ((argv.length + 1) * 8) (Nat.not_lt.mp enough)
        (by omega) (by omega)
      have some : Bytes.encodeAll 8 (pushed.map Prod.fst ++ [0]) ≠ [] := by
        rw [← List.length_pos_iff, length]
        omega
      rw [← length] at fits
      apply wp_bind.mpr
      apply wp_mono (loaded.copyout placed some fits.1 fits.2.1 fits.2.2)
      intro done after result
      rcases result with ⟨went, failed⟩
      cases done with
      | false =>
        exact wp_pure.mpr ⟨image₁, (failed rfl).2, kept, by simp, fun _ => .inl (failed rfl).1⟩
      | true =>
        refine wp_pure.mpr ⟨_, went rfl, ?_, ?_, fun impossible => by cases impossible⟩
        · intro va below
          rw [store_outside (by omega), kept va below]
        · rintro sp' ⟨⟩
          refine ⟨⟨by omega, Nat.not_lt.mp enough, pushed, ?_, by simpa using texts, ?_⟩, by omega⟩
          · rw [List.length_map]
            exact holds.lower (by omega) (by omega)
          · rw [List.length_map, ← length]
            exact fun i inside => store_inside inside

end Xv6.Kernel
