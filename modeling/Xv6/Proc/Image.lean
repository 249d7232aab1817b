import Xv6.Proc.Lifecycle
import Xv6.Proc.Stack

/-! # Contracts of `exec` -/

namespace Xv6.Kernel

open StateProg Vm
open Prog (wp_bind wp_mono wp_pure)

variable [KernelImage] {allowed : String → Prop} {memory after : Memory} {table trapframe : Nat}

/-- The size of user memory after all segments. -/
def programEnd (elf file : List UInt8) : Nat :=
  segmentsEnd file (field elf 56 2) (field elf 32 8 % 2 ^ 32) 0

/-- User memory after all segments. -/
def programImage (elf file : List UInt8) : Nat → UInt8 :=
  segmentsImage file (field elf 56 2) (field elf 32 8 % 2 ^ 32) fun _ => 0

/-- The image of a program that `exec` has built. -/
structure Built (elf file : List UInt8) (texts : List (List UInt8)) (new : Image)
    (image : Nat → UInt8) : Prop where
  argc : new.argc = texts.length
  entry : new.entry = field elf 24 8
  room : 2 * pgSize ≤ new.sz
  stack : ArgStack image new.sz new.sp texts
  fits : stackNeed texts ≤ pgSize
  program : file.length < 2 ^ 32 → new.sz = pgRoundUp (programEnd elf file) + 2 * pgSize ∧
    ∀ va < pgRoundUp (programEnd elf file), image va = programImage elf file va

variable {argv : List Nat}

theorem loadImage_spec (placed : Placed allowed) (elf file : List UInt8)
    (apart : ∀ arg ∈ argv, arg ∉ (memory.free : Multiset Nat) + Vm.space memory.cell table)
    (short : ∀ arg ∈ argv, (textAt memory arg).length < pgSize) (few : argv.length < maxArg)
    (loading : Loading allowed memory memory table trapframe 0 none fun _ => 0) :
    wp allowed (loadImage table elf file argv) memory fun result after =>
      (∀ sz, result = .error sz →
        ∃ guard image, Loading allowed memory after table trapframe sz guard image) ∧
      ∀ new, result = .ok new → new.pagetable = table ∧ ∃ image,
        Loading allowed memory after table trapframe new.sz (some (new.sz / pgSize - 2)) image ∧
        Built elf file (argv.map (textAt memory)) new image := by
  have stop : ∀ {sz guard image after},
      Loading allowed memory after table trapframe sz guard image →
      wp allowed (pure (.error sz) : MemProg (Except Nat Image)) after fun result after =>
        (∀ sz, result = .error sz →
          ∃ guard image, Loading allowed memory after table trapframe sz guard image) ∧
        ∀ new, result = .ok new → new.pagetable = table ∧ ∃ image,
          Loading allowed memory after table trapframe new.sz (some (new.sz / pgSize - 2)) image ∧
          Built elf file (argv.map (textAt memory)) new image := by
    intro sz guard image after loading
    refine wp_pure.mpr ⟨?_, by simp⟩
    rintro sz' ⟨⟩
    exact ⟨guard, image, loading⟩
  unfold loadImage
  apply wp_bind.mpr
  apply wp_mono (loadSegments_spec placed file _ _ loading)
  intro result first final
  rcases result with ⟨loaded, sz⟩
  rcases final with ⟨image, loading₁, program⟩
  cases loaded with
  | false => exact stop loading₁
  | true =>
    have bound := pgRoundUp_le loading₁.bound
    have loading₂ := loading₁.roundUp
    have aligned := pgRoundUp_aligned sz
    simp only [Bool.not_true, Bool.false_eq_true, if_false]
    generalize rounded : pgRoundUp sz = low at bound loading₂ aligned program ⊢
    have newsz : (low + 2 * pgSize) % 2 ^ 64 = low + 2 * pgSize := by
      unfold trapframeVa trampolineVa maxVa pgSize at *
      omega
    rw [newsz]
    apply wp_bind.mpr
    apply wp_mono (loading₂.uvmalloc (by decide))
    intro sz1 second result
    rcases result with ⟨rfl, kept⟩ | ⟨grown, grew⟩
    · exact stop kept
    · obtain rfl : sz1 = low + 2 * pgSize := by omega
      have pages : numPages (low + 2 * pgSize) = low / pgSize + 2 := by
        rw [numPages_of_aligned grew.bound (by unfold pgSize at *; omega)]
        unfold pgSize
        omega
      have top : (low + 2 * pgSize) / pgSize = low / pgSize + 2 := by
        unfold pgSize
        omega
      have guardVa : sub64 (low + 2 * pgSize) (2 * pgSize) = low := by
        rw [sub64_of_le (by omega) (Nat.le_add_left _ _), Nat.add_sub_cancel]
      have stack : StackPage (low + 2 * pgSize) (some (low / pgSize)) := by
        refine ⟨by unfold pgSize at *; omega, Nat.le_add_left _ _, grew.bound, ?_⟩
        rw [top]
        simp
      rw [if_neg (by unfold pgSize; omega), guardVa]
      apply wp_bind.mpr
      apply wp_mono (grew.clear aligned (by rw [pages]; omega))
      intro _ third guarded
      apply wp_bind.mpr
      apply wp_mono (pushStack_spec placed stack argv apart short few guarded)
      intro result fourth final
      rcases final with ⟨image', loaded, kept, pushed, _⟩
      cases result with
      | none => exact stop loaded
      | some sp =>
        refine wp_pure.mpr ⟨by simp, ?_⟩
        rintro new ⟨⟩
        refine ⟨rfl, image', by rwa [top], by simp, rfl, Nat.le_add_left _ _,
          (pushed sp rfl).1, (pushed sp rfl).2, fun small => ?_⟩
        rcases program rfl small with ⟨size, contents⟩
        rw [programEnd, programImage, ← size, ← contents, rounded]
        exact ⟨rfl, fun va below => kept va (by omega)⟩

variable {boot owned held : Multiset Nat} {kernel last : Kernel} {p : Nat} {path : List UInt8}
  {new : Image} {image : Nat → UInt8}

theorem Balanced.exchange (balanced : Balanced boot kernel owned held)
    (exchange : Exchange kernel.memory owned memory owned') :
    Balanced boot (kernel.setMemory memory) owned' held :=
  ⟨balanced.world.exchange exchange, balanced.refs.of_memory memory⟩

variable {pages : Multiset Nat}

theorem Balanced.safe (balanced : Balanced boot kernel (pages + owned) held)
    (placed : Placed allowed) : Safe allowed kernel.memory pages := by
  have inside : pages ≤ pages + owned + others boot kernel ∅ :=
    (Multiset.le_add_right _ _).trans (Multiset.le_add_right _ _)
  rcases placed with ⟨_, may⟩ | ⟨_, _, bound⟩
  · exact ⟨balanced.world.proper.of_le inside, .inl may⟩
  · exact (balanced.world.safe bound).of_le inside

def withImage (path : List UInt8) (pagetable sz : Nat) (proc : Proc) : Proc :=
  { proc with name := safestrcpy (lastElem path path), pagetable := some pagetable, sz := sz }

variable {old sz : Nat}

theorem Balanced.swapPagetable (path : List UInt8)
    (balanced : Balanced boot kernel (Vm.space kernel.memory.cell table + owned) held)
    (running : Running kernel p) (foundOld : (kernel.proc p).pagetable = some old)
    (found : (kernel.proc p).trapframe = some trapframe)
    (space : Space kernel.memory.cell table trapframe) (bound : sz ≤ trapframeVa)
    (maps : Maps kernel.memory.cell table (· < numPages sz)) :
    Balanced boot (kernel.setProc p (withImage path table sz (kernel.proc p)))
      (Vm.space kernel.memory.cell old + owned) held where
  world := by
    apply World.giveProc _ running.slot (Finset.notMem_empty p)
    · refine ⟨?_, by simp [withImage], ?_, bound, ?_⟩
      · simp [withImage, running.state]
      · rintro other ⟨⟩
        exact ⟨trapframe, found, space⟩
      · rintro other ⟨⟩
        exact maps
    · have taken := balanced.world.take running.slot (Finset.notMem_empty p)
      have swap (frame old new rest : Multiset Nat) :
          frame + old + (new + rest) = frame + new + (old + rest) := by
        abel
      rw [procPages, foundOld, Option.elim_some, swap] at taken
      exact taken
  refs := balanced.refs.updateProc (by rfl) (.inl (by rfl))

omit [KernelImage] in
/-- The stores of `exec` into the trapframe: `a1`, `epc` and `sp`. -/
def startFrame (new : Image) (frame : Page) : Page :=
  ((frame.write 120 (Bytes.encode 8 new.sp)).write 24 (Bytes.encode 8 new.entry)).write 48
    (Bytes.encode 8 new.sp)

/-- `exec` has replaced the program of a process. -/
structure Executed (kernel after : Kernel) (p trapframe : Nat) (path : List UInt8) (new : Image)
    (image : Nat → UInt8) : Prop where
  found : (kernel.proc p).trapframe = some trapframe
  record : after =
    (kernel.setProc p (withImage path new.pagetable new.sz (kernel.proc p))).setMemory after.memory
  holds : Holds after.memory.cell new.pagetable new.sz (some (new.sz / pgSize - 2)) image
  frame : after.memory.cell trapframe = startFrame new (kernel.memory.cell trapframe)

omit [KernelImage] in
theorem Holds.congr {cell after : Nat → Page} {guard : Option Nat}
    (holds : Holds cell table sz guard image)
    (same : ∀ page ∈ Vm.space cell table, after page = cell page) :
    Holds after table sz guard image := by
  have kept : ∀ page ∈ tables cell 2 table, after page = cell page :=
    fun page isTable => same page (Multiset.mem_add.mpr (.inl isTable))
  refine ⟨holds.bound, holds.maps.congr kept, ?_⟩
  intro vpn inside
  rcases holds.page vpn inside with ⟨pte, here, user⟩
  rcases userPageAt_eq_some.mp here with ⟨valid, rfl, contents⟩
  have leaf : leafAt after (vpn * pgSize) 2 table = leafAt cell (vpn * pgSize) 2 table :=
    leafAt_congr kept
  have member := mem_userPages_own (own_of_lt_div (holds.vpn_lt inside)) valid
  refine ⟨_, userPageAt_eq_some.mpr ⟨?_, leaf.symm, ?_⟩, user⟩
  · rw [leaf]
    exact valid
  · rw [same _ (Multiset.mem_add.mpr (.inr member))]
    exact contents

theorem commitImage_spec (placed : Placed allowed)
    (balanced : Balanced boot kernel (Vm.space kernel.memory.cell new.pagetable + owned) held)
    (running : Running kernel p) (foundOld : (kernel.proc p).pagetable = some old)
    (found : (kernel.proc p).trapframe = some trapframe)
    (space : Space kernel.memory.cell new.pagetable trapframe)
    (holds : Holds kernel.memory.cell new.pagetable new.sz (some (new.sz / pgSize - 2)) image) :
    wp allowed (do
        modifyProc p (withImage path new.pagetable new.sz)
        onMemory do
          Vm.writePage trapframe 120 (Bytes.encode 8 new.sp)
          Vm.writePage trapframe 24 (Bytes.encode 8 new.entry)
          Vm.writePage trapframe 48 (Bytes.encode 8 new.sp)
          Vm.procFreepagetable old (kernel.proc p).sz
        return (new.argc : Int)) kernel fun ret after =>
      Balanced boot after owned held ∧ ret = new.argc ∧
        Executed kernel after p trapframe path new image := by
  have swapped := balanced.swapPagetable path running foundOld found space holds.bound holds.maps
  have ok := balanced.world.procOk running.slot
  rcases ok.space old foundOld with ⟨_, _, oldSpace⟩
  apply wp_bind.mpr
  apply wp_modifyProc.mpr
  apply wp_bind.mpr
  apply onMemory_spec
  simp only [writePage, wp_bind, wp_modify]
  generalize written : Heap.mk _ _ = stored
  have free : stored.free = kernel.memory.free := by rw [← written]; rfl
  have elsewhere : ∀ page, page ≠ trapframe → stored.cell page = kernel.memory.cell page := by
    intro page different
    rw [← written]
    exact (Function.update_of_ne different _ _).trans
      ((Function.update_of_ne different _ _).trans (Function.update_of_ne different _ _))
  have frame : stored.cell trapframe = startFrame new (kernel.memory.cell trapframe) := by
    rw [← written]
    simp only [Function.update_self, setProc_memory]
    rfl
  have kept : ∀ page ∈ tables kernel.memory.cell 2 old,
      stored.cell page = kernel.memory.cell page := fun page inside =>
    elsewhere page (balanced.world.ne_trapframe running.slot found foundOld
      (Multiset.mem_add.mpr (.inl inside)))
  have record := setProc_proc_self kernel p (withImage path new.pagetable new.sz (kernel.proc p))
  have found' := (congrArg Proc.trapframe record).trans found
  have foundNew := congrArg Proc.pagetable record
  have stays : ∀ page ∈ Vm.space kernel.memory.cell new.pagetable,
      stored.cell page = kernel.memory.cell page := fun page inside =>
    elsewhere page (swapped.world.ne_trapframe running.slot found' foundNew inside)
  have stable : Balanced boot
      ((kernel.setProc p (withImage path new.pagetable new.sz (kernel.proc p))).setMemory stored)
      (Vm.space stored.cell old + owned) held := by
    rw [space_congr kept]
    exact ⟨swapped.world.storeTrapframe running.slot found' free elsewhere,
      swapped.refs.of_memory stored⟩
  apply wp_mono (procFreepagetable_spec ok.size (stable.safe placed) (oldSpace.congr kept)
    ((ok.maps old foundOld).congr kept))
  intro _ after released
  have final := stable.exchange (released.frame owned)
  rw [zero_add] at final
  refine wp_pure.mpr ⟨final, rfl, found, rfl, ?_, ?_⟩
  · exact (holds.congr stays).congr (stable.world.space_kept running.slot foundNew released)
  · exact (stable.world.frame_kept running.slot found' released).trans frame

theorem Executed.of_memory
    (executed : Executed (kernel.setMemory memory) last p trapframe path new image)
    (balanced : Balanced boot kernel owned held) (slot : p ∈ procSlots)
    (exchange : Exchange kernel.memory 0 memory pages) :
    Executed kernel last p trapframe path new image := by
  have world := balanced.world
  rw [← zero_add owned] at world
  refine ⟨executed.found, executed.record, executed.holds, ?_⟩
  rw [← world.frame_kept slot executed.found exchange]
  exact executed.frame

theorem Executed.exchange {pages' : Multiset Nat}
    (executed : Executed kernel last p trapframe path new image)
    (balanced : Balanced boot last (pages + owned) held) (slot : p ∈ procSlots)
    (exchange : Exchange last.memory pages memory pages') :
    Executed kernel (last.setMemory memory) p trapframe path new image := by
  have proc : last.proc p = withImage path new.pagetable new.sz (kernel.proc p) := by
    rw [executed.record, setMemory_proc, setProc_proc_self]
  have found : (last.proc p).trapframe = some trapframe :=
    (congrArg Proc.trapframe proc).trans executed.found
  have foundNew := congrArg Proc.pagetable proc
  refine ⟨executed.found, ?_, ?_, ?_⟩
  · rw [executed.record]
    rfl
  · exact executed.holds.congr (balanced.world.space_kept slot foundNew exchange)
  · exact (balanced.world.frame_kept slot found exchange).trans executed.frame

/-- What `exec` has done when it returns `ret`: nothing, or the file is the new program. -/
def Ended (kernel after : Kernel) (p : Nat) (path : List UInt8) (file : Option (List UInt8))
    (texts : List (List UInt8)) (ret : Int) : Prop :=
  ret = -1 ∧ after = kernel.setMemory after.memory ∧ Exchange kernel.memory 0 after.memory 0 ∨
    ret = texts.length ∧ ∃ bytes trapframe new image, file = some bytes ∧
      Built (readi bytes 0 elfhdrSize) bytes texts new image ∧
      Executed kernel after p trapframe path new image

omit [KernelImage] in
theorem Ended.nothing {file : Option (List UInt8)} {texts : List (List UInt8)} :
    Ended kernel kernel p path file texts (-1) :=
  .inl ⟨rfl, rfl, .refl _ _⟩

theorem exec_spec (placed : Placed allowed) (path : List UInt8) (file : Option (List UInt8))
    (balanced : Balanced boot kernel (argv + owned) held) (running : Running kernel p)
    (short : ∀ arg ∈ argv, (textAt kernel.memory arg).length < pgSize) (few : argv.length < maxArg) :
    wp allowed (exec p path file argv) kernel fun ret after =>
      Balanced boot after (argv + owned) held ∧
        Ended kernel after p path file (argv.map (textAt kernel.memory)) ret := by
  have slot := running.slot
  rcases balanced.pagetable running with ⟨old, foundOld⟩
  have ok := balanced.world.procOk slot
  rcases ok.space old foundOld with ⟨trapframe, found, _⟩
  have bound : trapframe < 2 ^ 56 := (balanced.trapframe_lt slot found).trans (by decide)
  have free : Safe allowed kernel.memory 0 := (balanced.safe placed).of_le (Multiset.zero_le _)
  cases file with
  | none => exact wp_pure.mpr ⟨balanced, .nothing⟩
  | some file =>
    simp only [exec]
    split
    · exact wp_pure.mpr ⟨balanced, .nothing⟩
    · apply wp_bind.mpr
      apply wp_get.mpr
      apply wp_bind.mpr
      apply wp_trapframeOf found
      apply wp_bind.mpr
      apply onMemory_spec
      apply wp_mono (procPagetable_spec free bound)
      intro result first holds
      cases result with
      | none =>
        have gained := balanced.gain holds
        rw [zero_add] at gained
        exact wp_pure.mpr ⟨gained, .inl ⟨rfl, rfl, holds⟩⟩
      | some table =>
        rcases holds with ⟨exchange, space, maps⟩
        have gained := balanced.gain exchange
        have empty : numPages 0 = 0 := by decide
        have loading : Loading allowed first first table trapframe 0 none fun _ => 0 :=
          ⟨⟨Nat.zero_le _, maps, by simp [empty]⟩, gained.safe placed,
            .refl space.wellFormed, space, fun _ _ => rfl⟩
        have apart : ∀ arg ∈ argv,
            arg ∉ (first.free : Multiset Nat) + Vm.space first.cell table := by
          intro arg member inside
          have nodup := gained.world.proper.left.nodup
          rw [← add_assoc] at nodup
          exact Multiset.disjoint_left.mp (Multiset.nodup_add.mp nodup).2.2 inside
            (Multiset.mem_add.mpr (.inl (Multiset.mem_coe.mpr member)))
        have texts : ∀ arg ∈ argv, textAt first arg = textAt kernel.memory arg := by
          intro arg member
          have busy := balanced.world.proper.left.left.not_mem_free (Multiset.mem_coe.mpr member)
          rw [textAt, textAt, exchange.untouched arg (by simpa using busy)]
        apply wp_bind.mpr
        apply onMemory_spec
        apply wp_mono (loadImage_spec placed (readi file 0 elfhdrSize) file apart
          (fun arg member => by rw [texts arg member]; exact short arg member) few loading)
        intro result second final
        rcases final with ⟨failed, built⟩
        cases result with
        | error sz =>
          rcases failed sz rfl with ⟨guard, image, loading'⟩
          have changed := gained.exchange (loading'.change.exchange.frame _)
          apply wp_bind.mpr
          apply onMemory_spec
          apply wp_mono (procFreepagetable_spec loading'.bound loading'.safe
            loading'.space loading'.maps)
          intro _ third released
          have freed := changed.exchange (released.frame _)
          rw [zero_add] at freed
          exact wp_pure.mpr ⟨freed, .inl ⟨rfl, rfl,
            (exchange.trans loading'.change.exchange).trans released⟩⟩
        | ok new =>
          rcases built new rfl with ⟨rfl, image, loading', built⟩
          have changed := gained.exchange (loading'.change.exchange.frame _)
          have foundOld' : (((kernel.setMemory first).setMemory second).proc p).pagetable =
              some old := foundOld
          rw [List.map_congr_left texts] at built
          apply wp_bind.mpr
          apply wp_pagetableOf foundOld'
          apply wp_mono (commitImage_spec placed changed ⟨slot, running.state⟩ foundOld'
            found loading'.space loading'.toHolds)
          intro ret after final
          rcases final with ⟨last, rfl, executed⟩
          refine ⟨last, .inr ⟨congrArg _ built.argc, file, trapframe, new, image, rfl, built, ?_⟩⟩
          exact Executed.of_memory executed balanced slot (exchange.trans loading'.change.exchange)

/-! ## `sys_exec` -/

omit [KernelImage] in
theorem textAt_short (inside : k < pgSize) (ends : (memory.cell arg).byteAt k = 0) :
    (textAt memory arg).length < pgSize := by
  have length := (List.takeWhile_prefix (· != 0) (l := (memory.cell arg).read 0 pgSize)).length_le
  rw [Bytes.read_length] at length
  apply lt_of_le_of_ne length
  intro whole
  have all := (List.takeWhile_prefix (· != 0)).eq_of_length
    (whole.trans (Bytes.read_length _ 0 pgSize).symm)
  have member : 0 ∈ (memory.cell arg).read 0 pgSize := by
    rw [← ends, Bytes.read, List.mem_map]
    exact ⟨k, List.mem_range.mpr inside, by rw [Nat.zero_add]⟩
  rw [← all] at member
  exact absurd (List.all_eq_true.mp List.all_takeWhile 0 member) (by simp)

variable {args : List Nat} {memory : Memory}

omit [KernelImage] in
theorem fetchArgs_spec (pagetable sz uargv count i : Nat) (proper : Proper memory args)
    (short : ∀ arg ∈ args, (textAt memory arg).length < pgSize) :
    wp allowed (fetchArgs pagetable sz uargv count i args) memory fun result after =>
      Exchange memory args after result.2 ∧
        (result.1 = true → result.2.length < args.length + count ∧
          ∀ arg ∈ result.2, (textAt after arg).length < pgSize) := by
  have stop : ∀ {count : Nat} {args : List Nat} {memory : Memory},
      wp allowed (pure (false, args) : MemProg (Bool × List Nat)) memory fun result after =>
        Exchange memory args after result.2 ∧
          (result.1 = true → result.2.length < args.length + count ∧
            ∀ arg ∈ result.2, (textAt after arg).length < pgSize) :=
    wp_pure.mpr ⟨.refl _ _, by simp⟩
  induction count generalizing i args memory with
  | zero => exact stop
  | succ count induction =>
    simp only [fetchArgs]
    split
    · exact stop
    · apply wp_bind.mpr
      apply wp_mono (copyin_spec pagetable _ 8 memory)
      rintro ⟨fetched, bytes⟩ _ rfl
      simp only
      split
      · exact stop
      · split
        · exact wp_pure.mpr ⟨.refl _ _, fun _ => ⟨Nat.lt_add_of_pos_right (Nat.succ_pos _), short⟩⟩
        · apply wp_bind.mpr
          apply wp_mono (kalloc_spec _)
          intro result first allocation
          cases result with
          | none =>
            subst allocation
            exact stop
          | some arg =>
            have append : (arg ::ₘ (args : Multiset Nat)) = ((args ++ [arg] : List Nat)) := by
              rw [Multiset.cons_coe, Multiset.coe_eq_coe]
              exact (List.perm_append_singleton arg args).symm
            apply wp_bind.mpr
            apply wp_mono (copyinstrFrom_spec pgSize [] (Nat.le_refl _))
            rintro result _ ⟨rfl, copied⟩
            simp only [writePage, wp_bind, wp_modify]
            have fresh := fun contents => allocation.store contents
            have gained := fun contents => (fresh contents).exchange args
            rw [append] at gained
            rcases copied with ⟨k, inside, string, rfl⟩ | ⟨n, _, _, rfl⟩
            · simp only [if_true]
              apply wp_mono (induction (i + 1) (proper.exchange (gained _)) ?_)
              · intro result after further
                rcases further with ⟨further, fetch⟩
                refine ⟨(gained _).trans further, fun fetched => ?_⟩
                rw [List.length_append, List.length_singleton, Nat.add_assoc,
                  Nat.add_comm 1] at fetch
                exact fetch fetched
              · intro other member
                rcases List.mem_append.mp member with old | new
                · rw [textAt, (fresh _).kept proper old]
                  exact short other old
                · rw [List.mem_singleton.mp new]
                  apply textAt_short inside
                  dsimp only
                  rw [List.nil_append, Function.update_self,
                    Bytes.byteAt_write_inside _ _ inside (Nat.zero_le k)
                      (by simp [userBytes]), ← string.ends]
                  simp [userBytes]
            · exact wp_pure.mpr ⟨gained _, by simp⟩

theorem freeArgs_spec (safe : Safe allowed memory args) :
    wp allowed (freeArgs args) memory fun _ after => Exchange memory args after 0 := by
  induction args generalizing memory with
  | nil => exact wp_pure.mpr (.refl _ _)
  | cons arg rest induction =>
    apply wp_bind.mpr
    apply wp_mono (safe.kfree (Multiset.mem_coe.mpr List.mem_cons_self))
    rintro _ first ⟨released, _⟩
    apply wp_mono (induction (safe.exchange (released rest)))
    exact fun _ last further => (released rest).trans further

theorem sysExec_spec (placed : Placed allowed) (uargv : Nat) (path : List UInt8)
    (file : Option (List UInt8)) (balanced : Balanced boot kernel owned held)
    (running : Running kernel p) :
    wp allowed (sysExec p uargv path file) kernel fun ret after =>
      Balanced boot after owned held ∧
        ∃ texts, texts.length < maxArg ∧ Ended kernel after p path file texts ret := by
  rcases balanced.pagetable running with ⟨pagetable, found⟩
  unfold sysExec
  apply wp_bind.mpr
  apply Prog.wp_anyBool.mpr
  intro failed
  cases failed with
  | true => exact wp_pure.mpr ⟨balanced, [], by decide, .nothing⟩
  | false =>
    apply wp_bind.mpr
    apply wp_get.mpr
    apply wp_bind.mpr
    apply wp_pagetableOf found
    apply wp_bind.mpr
    apply onMemory_spec
    apply wp_mono (fetchArgs_spec pagetable _ uargv maxArg 0 balanced.proper_zero (by simp))
    rintro ⟨fetched, args⟩ memory ⟨exchange, fetch⟩
    have fetching : Balanced boot (kernel.setMemory memory) (args + owned) held :=
      balanced.gain exchange
    have release : ∀ {ret : Int} {after : Kernel} {texts : List (List UInt8)},
        texts.length < maxArg → Balanced boot after (args + owned) held →
        Ended (kernel.setMemory memory) after p path file texts ret →
        wp allowed (do onMemory (freeArgs args); return ret) after fun ret last =>
          Balanced boot last owned held ∧
            ∃ texts, texts.length < maxArg ∧ Ended kernel last p path file texts ret := by
      intro ret after texts few executed ended
      apply wp_bind.mpr
      apply onMemory_spec
      apply wp_mono (freeArgs_spec (executed.safe placed))
      intro _ last released
      have freed := executed.exchange (released.frame owned)
      rw [zero_add] at freed
      refine wp_pure.mpr ⟨freed, texts, few, ?_⟩
      rcases ended with ⟨failed, same, nothing⟩ | ⟨argc, bytes, trapframe, new, image, given,
        built, done⟩
      · have middle := nothing.frame args
        rw [zero_add] at middle
        refine .inl ⟨failed, ?_, (exchange.trans middle).trans released⟩
        rw [same]
        rfl
      · have before := Executed.of_memory done balanced running.slot exchange
        exact .inr ⟨argc, bytes, trapframe, new, image, given, built,
          before.exchange executed running.slot released⟩
    cases fetched with
    | false =>
      exact release (show ([] : List (List UInt8)).length < maxArg by decide) fetching .nothing
    | true =>
      rcases fetch rfl with ⟨few, short⟩
      rw [List.length_nil, Nat.zero_add] at few
      apply wp_bind.mpr
      apply wp_mono (exec_spec placed path file fetching ⟨running.slot, running.state⟩ short few)
      rintro ret after ⟨executed, ended⟩
      exact release (by rwa [List.length_map]) executed ended

end Xv6.Kernel
