import Xv6.Proc.World

/-! # Contracts of the functions on files and pipes -/

namespace Xv6.Kernel

open StateProg Vm
open Prog (wp_bind wp_mono wp_pure)
open Function (update update_self update_of_ne)

theorem mem_openPipes {file : Nat → File} :
    pi ∈ openPipes file ↔ ∃ f < nfile, (file f).type = .pipe ∧ (file f).pipe = pi := by
  simp only [openPipes, Finset.mem_image, Finset.mem_filter, Finset.mem_range, and_assoc]

theorem openPipes_of_same {file after : Nat → File}
    (same : ∀ f, (after f).type = (file f).type ∧ (after f).pipe = (file f).pipe) :
    openPipes after = openPipes file := by
  ext pi
  simp only [mem_openPipes, same]

namespace FilesOk

variable {file after : Nat → File} {pipe : Nat → Pipe}

theorem of_same (ok : FilesOk file pipe)
    (same : ∀ f, (after f).type = (file f).type ∧ (after f).pipe = (file f).pipe ∧
      (after f).writable = (file f).writable)
    (closed : ∀ f, (after f).ref = 0 → (after f).type = .none) : FilesOk after pipe := by
  refine ⟨closed, ?_, ?_, ?_, ?_⟩
  · intro f
    rw [(same f).1]
    exact ok.bounded f
  · intro f
    rw [(same f).1, (same f).2.1, (same f).2.2]
    exact ok.isOpen f
  · intro f g
    rw [(same f).1, (same f).2.1, (same f).2.2, (same g).1, (same g).2.1, (same g).2.2]
    exact ok.unique f g
  · intro f writable
    rw [(same f).1, (same f).2.1]
    intro type isOpen
    rcases ok.ends f writable type isOpen with ⟨g, type, pipe, same'⟩
    exact ⟨g, by rw [(same g).1, (same g).2.1, (same g).2.2]; exact ⟨type, pipe, same'⟩⟩

end FilesOk

def withRef (file : File) (ref : Nat) : File := { file with ref := ref }

def withoutRef (file : File) : File := { file with ref := 0, type := .none }

/-- The file table with another reference count for `f`. -/
def setRef (file : Nat → File) (f ref : Nat) : Nat → File :=
  update file f (withRef (file f) ref)

theorem setRef_self (file : Nat → File) (f ref : Nat) : (setRef file f ref f).ref = ref := by
  rw [setRef, update_self, withRef]

theorem setRef_of_ne {file : Nat → File} (ref : Nat) (different : g ≠ f) :
    setRef file f ref g = file g :=
  update_of_ne different _ _

theorem setRef_same (file : Nat → File) (f ref g : Nat) :
    (setRef file f ref g).type = (file g).type ∧ (setRef file f ref g).pipe = (file g).pipe ∧
      (setRef file f ref g).writable = (file g).writable := by
  by_cases equal : g = f
  · subst g
    rw [setRef, update_self]
    exact ⟨rfl, rfl, rfl⟩
  · rw [setRef_of_ne ref equal]
    exact ⟨rfl, rfl, rfl⟩

/-- The file table when the last reference to `f` is closed. -/
def closedFile (file : Nat → File) (f : Nat) : Nat → File :=
  update file f (withoutRef (file f))

/-- The pipe with one of its ends closed. -/
def closedPipe (pipe : Nat → Pipe) (pi : Nat) (writable : Bool) : Nat → Pipe :=
  update pipe pi
    (if writable then { pipe pi with writeopen := false } else { pipe pi with readopen := false })

theorem isOpen_closedPipe (pipe : Nat → Pipe) (pi : Nat) (writable : Bool) (other : Nat)
    (which : Bool) :
    isOpen (closedPipe pipe pi writable other) which =
      (isOpen (pipe other) which && !(decide (other = pi) && which == writable)) := by
  by_cases equal : other = pi
  · subst other
    rw [closedPipe, update_self]
    cases writable <;> cases which <;> simp [isOpen]
  · rw [closedPipe, update_of_ne equal]
    simp [equal]

theorem closedFile_of_ne {file : Nat → File} (different : g ≠ f) : closedFile file f g = file g :=
  update_of_ne different _ _

theorem closedFile_type {file : Nat → File} (type : (closedFile file f g).type = .pipe) :
    g ≠ f ∧ (file g).type = .pipe := by
  by_cases equal : g = f
  · subst g
    rw [closedFile, update_self] at type
    exact absurd type (by simp [withoutRef])
  · rw [closedFile_of_ne equal] at type
    exact ⟨equal, type⟩

namespace FilesOk

variable {file : Nat → File} {pipe : Nat → Pipe} {f : Nat}

section

variable (ok : FilesOk file pipe)

include ok

theorem of_notPipe {after : Nat → File}
    (same : ∀ g, after g = file g ∨ (file g).type ≠ .pipe ∧ (after g).type ≠ .pipe)
    (closed : ∀ g, (after g).ref = 0 → (after g).type = .none) :
    FilesOk after pipe ∧ openPipes after = openPipes file := by
  have old : ∀ g, (file g).type = .pipe → after g = file g := fun g isPipe =>
    (same g).resolve_right fun changed => changed.1 isPipe
  have new : ∀ g, (after g).type = .pipe → (file g).type = .pipe := by
    intro g isPipe
    rcases same g with equal | changed
    · rwa [← equal]
    · exact absurd isPipe changed.2
  constructor
  · refine ⟨closed, fun g isPipe => ok.bounded g (new g isPipe), ?_, ?_, ?_⟩
    · intro g isPipe
      rw [old g (new g isPipe)]
      exact ok.isOpen g (new g isPipe)
    · intro g h isPipe isPipe'
      rw [old g (new g isPipe), old h (new h isPipe')]
      exact ok.unique g h (new g isPipe) (new h isPipe')
    · intro g writable isPipe
      rw [old g (new g isPipe)]
      intro isOpen
      rcases ok.ends g writable (new g isPipe) isOpen with ⟨h, type, rest⟩
      exact ⟨h, by rw [old h type]; exact ⟨type, rest⟩⟩
  · ext pi
    rw [mem_openPipes, mem_openPipes]
    constructor
    · rintro ⟨g, bound, isPipe, equal⟩
      rw [old g (new g isPipe)] at equal
      exact ⟨g, bound, new g isPipe, equal⟩
    · rintro ⟨g, bound, isPipe, equal⟩
      exact ⟨g, bound, by rw [old g isPipe]; exact ⟨isPipe, equal⟩⟩

theorem closed_closedFile (f g : Nat) (ref : (closedFile file f g).ref = 0) :
    (closedFile file f g).type = .none := by
  by_cases equal : g = f
  · subst g
    rw [closedFile, update_self, withoutRef]
  · rw [closedFile_of_ne equal] at ref ⊢
    exact ok.closed g ref

theorem close_other (type : (file f).type ≠ .pipe) :
    FilesOk (closedFile file f) pipe ∧ openPipes (closedFile file f) = openPipes file := by
  apply ok.of_notPipe _ (ok.closed_closedFile f)
  intro g
  by_cases equal : g = f
  · subst g
    exact .inr ⟨type, fun isPipe => (closedFile_type isPipe).1 rfl⟩
  · exact .inl (closedFile_of_ne equal)

theorem close_pipe (type : (file f).type = .pipe) :
    FilesOk (closedFile file f) (closedPipe pipe (file f).pipe (file f).writable) := by
  -- another file of the same pipe is its other end
  have other : ∀ g, g ≠ f → (file g).type = .pipe → (file g).pipe = (file f).pipe →
      (file g).writable ≠ (file f).writable := fun g different isPipe samePipe sameEnd =>
    different (ok.unique g f isPipe type samePipe sameEnd)
  refine ⟨ok.closed_closedFile f, fun g isPipe => ok.bounded g (closedFile_type isPipe).2,
    ?_, ?_, ?_⟩
  · intro g isPipe
    rcases closedFile_type isPipe with ⟨different, before⟩
    rw [closedFile_of_ne different, isOpen_closedPipe, ok.isOpen g before]
    by_cases samePipe : (file g).pipe = (file f).pipe
    · simp [samePipe, other g different before samePipe]
    · simp [samePipe]
  · intro g h isPipe isPipe'
    rcases closedFile_type isPipe with ⟨different, before⟩
    rcases closedFile_type isPipe' with ⟨different', before'⟩
    rw [closedFile_of_ne different, closedFile_of_ne different']
    exact ok.unique g h before before'
  · intro g writable isPipe
    rcases closedFile_type isPipe with ⟨different, before⟩
    rw [closedFile_of_ne different, isOpen_closedPipe, Bool.and_eq_true]
    rintro ⟨isOpen, notClosed⟩
    rcases ok.ends g writable before isOpen with ⟨h, type', samePipe, sameEnd⟩
    have different' : h ≠ f := by
      rintro rfl
      simp [samePipe, sameEnd] at notClosed
    exact ⟨h, by rw [closedFile_of_ne different']; exact ⟨type', samePipe, sameEnd⟩⟩

theorem openPipes_close (type : (file f).type = .pipe) :
    openPipes (closedFile file f) =
      if Kernel.isOpen (pipe (file f).pipe) (!(file f).writable) = true then openPipes file
      else (openPipes file).erase (file f).pipe := by
  have old : ∀ pi, pi ∈ openPipes (closedFile file f) ↔
      ∃ g < nfile, g ≠ f ∧ (file g).type = .pipe ∧ (file g).pipe = pi := by
    intro pi
    rw [mem_openPipes]
    constructor
    · rintro ⟨g, bound, isPipe, equal⟩
      rcases closedFile_type isPipe with ⟨different, before⟩
      rw [closedFile_of_ne different] at equal
      exact ⟨g, bound, different, before, equal⟩
    · rintro ⟨g, bound, different, before, equal⟩
      exact ⟨g, bound, by rw [closedFile_of_ne different]; exact ⟨before, equal⟩⟩
  ext pi
  rw [old]
  split
  · rename_i otherOpen
    rw [mem_openPipes]
    constructor
    · rintro ⟨g, bound, _, rest⟩
      exact ⟨g, bound, rest⟩
    · rintro ⟨g, bound, isPipe, rfl⟩
      by_cases equal : g = f
      · subst g
        rcases ok.ends f _ type otherOpen with ⟨h, isPipe', samePipe, otherEnd⟩
        refine ⟨h, ok.bounded h isPipe', ?_, isPipe', samePipe⟩
        rintro rfl
        simp at otherEnd
      · exact ⟨g, bound, equal, isPipe, rfl⟩
  · rename_i otherClosed
    rw [Finset.mem_erase, mem_openPipes]
    constructor
    · rintro ⟨g, bound, different, isPipe, rfl⟩
      refine ⟨fun samePipe => ?_, g, bound, isPipe, rfl⟩
      have otherEnd : (file g).writable = !(file f).writable := by
        have := fun sameEnd => different (ok.unique g f isPipe type samePipe sameEnd)
        cases one : (file g).writable <;> cases two : (file f).writable <;> simp_all
      rw [← otherEnd, ← samePipe, ok.isOpen g isPipe] at otherClosed
      exact otherClosed rfl
    · rintro ⟨different, g, bound, isPipe, rfl⟩
      refine ⟨g, bound, ?_, isPipe, rfl⟩
      rintro rfl
      exact different rfl

end

end FilesOk

/-- The files `rf` and `wf` became the ends of the pipe `pi`. -/
structure Opened (rf wf pi : Nat) (file after : Nat → File) : Prop where
  read : (after rf).type = .pipe ∧ (after rf).pipe = pi ∧ (after rf).writable = false
  write : (after wf).type = .pipe ∧ (after wf).pipe = pi ∧ (after wf).writable = true
  others : ∀ g, g ≠ rf → g ≠ wf → after g = file g
  ref : ∀ g, (after g).ref = (file g).ref

def readEnd (file : File) (pi : Nat) : File :=
  { file with type := .pipe, readable := true, writable := false, pipe := pi }

def writeEnd (file : File) (pi : Nat) : File :=
  { file with type := .pipe, readable := false, writable := true, pipe := pi }

theorem opened_update (different : rf ≠ wf) (pi : Nat) (file : Nat → File) :
    Opened rf wf pi file
      (update (update file rf (readEnd (file rf) pi)) wf
        (writeEnd (update file rf (readEnd (file rf) pi) wf) pi)) := by
  refine ⟨?_, ?_, ?_, ?_⟩
  · rw [update_of_ne different, update_self]
    exact ⟨rfl, rfl, rfl⟩
  · rw [update_self]
    exact ⟨rfl, rfl, rfl⟩
  · intro g notRead notWrite
    rw [update_of_ne notWrite, update_of_ne notRead]
  · intro g
    by_cases write : g = wf
    · subst g
      rw [update_self, update_of_ne different.symm]
      rfl
    · rw [update_of_ne write]
      by_cases read : g = rf
      · subst g
        rw [update_self]
        rfl
      · rw [update_of_ne read]

namespace Opened

variable {rf wf pi : Nat} {file after : Nat → File} {pipe : Nat → Pipe}

section

variable (opened : Opened rf wf pi file after)

include opened

theorem cases (g : Nat) (isPipe : (after g).type = .pipe) :
    ((after g).pipe = pi ∧ g = if (after g).writable then wf else rf) ∨
      (after g = file g ∧ (file g).type = .pipe) := by
  by_cases read : g = rf
  · subst g
    exact .inl ⟨opened.read.2.1, by simp [opened.read.2.2]⟩
  · by_cases write : g = wf
    · subst g
      exact .inl ⟨opened.write.2.1, by simp [opened.write.2.2]⟩
    · have same := opened.others g read write
      exact .inr ⟨same, same ▸ isPipe⟩

theorem old (free : (file rf).type = .none) (free' : (file wf).type = .none)
    (isPipe : (file g).type = .pipe) : after g = file g := by
  apply opened.others
  · rintro rfl
    simp [free] at isPipe
  · rintro rfl
    simp [free'] at isPipe

theorem filesOk (ok : FilesOk file pipe) (bound : rf < nfile) (bound' : wf < nfile)
    (free : (file rf).type = .none) (free' : (file wf).type = .none) (positive : (file rf).ref ≠ 0)
    (positive' : (file wf).ref ≠ 0) (fresh : pi ∉ openPipes file) :
    FilesOk after (update pipe pi { readopen := true, writeopen := true }) := by
  have notOld : ∀ g, (file g).type = .pipe → (file g).pipe ≠ pi := by
    rintro g isPipe rfl
    exact fresh (mem_openPipes.mpr ⟨g, ok.bounded g isPipe, isPipe, rfl⟩)
  have ends : ∀ writable, ∃ g, (after g).type = .pipe ∧ (after g).pipe = pi ∧
      (after g).writable = writable := by
    intro writable
    cases writable with
    | false => exact ⟨rf, opened.read⟩
    | true => exact ⟨wf, opened.write⟩
  refine ⟨?_, ?_, ?_, ?_, ?_⟩
  · intro g zero
    rw [opened.ref] at zero
    have same : after g = file g := by
      apply opened.others
      · rintro rfl
        exact positive zero
      · rintro rfl
        exact positive' zero
    rw [same]
    exact ok.closed g zero
  · intro g isPipe
    rcases opened.cases g isPipe with ⟨_, which⟩ | ⟨_, before⟩
    · rw [which]
      split <;> assumption
    · exact ok.bounded g before
  · intro g isPipe
    rcases opened.cases g isPipe with ⟨here, _⟩ | ⟨same, before⟩
    · rw [here, update_self]
      cases (after g).writable <;> rfl
    · rw [same, update_of_ne (notOld g before)]
      exact ok.isOpen g before
  · intro g h isPipe isPipe' samePipe sameEnd
    rcases opened.cases g isPipe with ⟨here, which⟩ | ⟨same, before⟩
    · rcases opened.cases h isPipe' with ⟨_, which'⟩ | ⟨same', before'⟩
      · rw [which, which', sameEnd]
      · rw [here, same'] at samePipe
        exact absurd samePipe.symm (notOld h before')
    · rcases opened.cases h isPipe' with ⟨here', _⟩ | ⟨same', before'⟩
      · rw [same, here'] at samePipe
        exact absurd samePipe (notOld g before)
      · rw [same, same'] at samePipe sameEnd
        exact ok.unique g h before before' samePipe sameEnd
  · intro g writable isPipe isOpen
    rcases opened.cases g isPipe with ⟨here, _⟩ | ⟨same, before⟩
    · rw [here]
      exact ends writable
    · rw [same, update_of_ne (notOld g before)] at isOpen
      rcases ok.ends g writable before isOpen with ⟨h, isPipe', rest⟩
      exact ⟨h, by rw [opened.old free free' isPipe', same]; exact ⟨isPipe', rest⟩⟩

theorem openPipes (bound : rf < nfile) (free : (file rf).type = .none)
    (free' : (file wf).type = .none) : openPipes after = insert pi (Kernel.openPipes file) := by
  ext page
  rw [Finset.mem_insert, mem_openPipes, mem_openPipes]
  constructor
  · rintro ⟨g, inside, isPipe, rfl⟩
    rcases opened.cases g isPipe with ⟨here, _⟩ | ⟨same, before⟩
    · exact .inl here
    · exact .inr ⟨g, inside, before, by rw [same]⟩
  · rintro (rfl | ⟨g, inside, isPipe, rfl⟩)
    · exact ⟨rf, bound, opened.read.1, opened.read.2.1⟩
    · exact ⟨g, inside, by rw [opened.old free free' isPipe]; exact ⟨isPipe, rfl⟩⟩

end

end Opened

variable [KernelImage] {boot owned : Multiset Nat} {kernel : Kernel} {absent : Finset Nat}

theorem World.setRef (world : World boot kernel absent owned) (f ref : Nat)
    (positive : ref = 0 → (kernel.file f).type = .none) :
    World boot (kernel.setFiles (Kernel.setRef kernel.file f ref)) absent owned := by
  have same := setRef_same kernel.file f ref
  have closed : ∀ g, (Kernel.setRef kernel.file f ref g).ref = 0 →
      (Kernel.setRef kernel.file f ref g).type = .none := by
    intro g
    rw [(same g).1]
    by_cases equal : g = f
    · subst g
      rw [setRef_self]
      exact positive
    · rw [setRef_of_ne ref equal]
      exact world.files.closed g
  exact world.of_same rfl (fun _ _ => ⟨rfl, rfl, rfl, rfl⟩)
    (openPipes_of_same fun g => ⟨(same g).1, (same g).2.1⟩) (world.files.of_same same closed)

theorem filealloc_spec (world : World boot kernel absent owned) :
    wp MayPanic filealloc kernel fun result after =>
      match result with
      | none => after = kernel
      | some f => f < nfile ∧ (kernel.file f).ref = 0 ∧ World boot after absent owned ∧
          after = kernel.setFiles (setRef kernel.file f 1) := by
  simp only [filealloc, wp_bind, wp_get]
  cases found : (List.range nfile).find? fun f => (kernel.file f).ref == 0 with
  | none => exact wp_pure.mpr rfl
  | some f =>
    simp only [wp_bind, wp_modifyFile, wp_pure]
    have bound := List.mem_range.mp (List.mem_of_find?_eq_some found)
    have free := List.find?_some found
    exact ⟨bound, by simpa using free, world.setRef f 1 (by simp), rfl⟩

theorem filedup_spec (f : Nat) (world : World boot kernel absent owned) :
    wp MayPanic (filedup f) kernel fun result after =>
      result = f ∧ World boot after absent owned ∧
        after = kernel.setFiles (setRef kernel.file f ((kernel.file f).ref + 1)) := by
  simp only [filedup, wp_bind, wp_get]
  split
  · exact halts (by decide)
  · simp only [wp_bind, wp_modifyFile, wp_pure]
    exact ⟨trivial, world.setRef f _ (by simp), rfl⟩

/-- What `fileclose` leaves as it is, and the reference it drops. -/
structure Dropped (f : Nat) (before after : Kernel) : Prop where
  proc : after.proc = before.proc
  initproc : after.initproc = before.initproc
  positive : 1 ≤ (before.file f).ref
  ref : (after.file f).ref = (before.file f).ref - 1
  others : ∀ g, g ≠ f → after.file g = before.file g

theorem World.of_pipes (world : World boot kernel absent owned) {file : Nat → File}
    {pipe : Nat → Pipe}
    (pipes : owned' + (openPipes file).val = owned + (openPipes kernel.file).val)
    (files : FilesOk file pipe) :
    World boot ((kernel.setFiles file).setPipes pipe) absent owned' := by
  refine ⟨?_, world.procs, files⟩
  have swap (free shared : Multiset Nat) :
      free + (owned' + (shared + (openPipes file).val)) =
        free + (owned + (shared + (openPipes kernel.file).val)) := by
    rw [add_left_comm owned', pipes, add_left_comm owned]
  exact (swap _ _).trans world.partition

theorem wp_pipeclose {post : Unit → Kernel → Prop}
    (holds : wp MayPanic
      (if isOpen (kernel.pipe pi) (!writable) = true then pure () else onMemory (kfree pi))
      (kernel.setPipes (closedPipe kernel.pipe pi writable)) post) :
    wp MayPanic (pipeclose pi writable) kernel post := by
  cases writable with
  | true =>
    simp only [pipeclose, if_true, wp_bind, wp_modifyPipe, wp_get, setPipes_pipe, update_self]
    cases readopen : (kernel.pipe pi).readopen <;> simpa [readopen, isOpen, closedPipe] using holds
  | false =>
    simp only [pipeclose, Bool.false_eq_true, if_false, wp_bind, wp_modifyPipe, wp_get,
      setPipes_pipe, update_self]
    cases writeopen : (kernel.pipe pi).writeopen <;>
      simpa [writeopen, isOpen, closedPipe] using holds

theorem pipeclose_spec (world : World boot kernel absent owned)
    (type : (kernel.file f).type = .pipe) :
    wp MayPanic (pipeclose (kernel.file f).pipe (kernel.file f).writable)
      (kernel.setFiles (closedFile kernel.file f))
      fun _ after => World boot after absent owned ∧ after.proc = kernel.proc ∧
        after.initproc = kernel.initproc ∧ after.file = closedFile kernel.file f := by
  have ok := world.files.close_pipe type
  have pipes := world.files.openPipes_close type
  have held : (kernel.file f).pipe ∈ openPipes kernel.file :=
    mem_openPipes.mpr ⟨f, world.files.bounded f type, type, rfl⟩
  apply wp_pipeclose
  rw [setFiles_pipe]
  cases otherOpen : isOpen (kernel.pipe (kernel.file f).pipe) (!(kernel.file f).writable) with
  | true =>
    simp only [otherOpen, if_true] at pipes
    simp only [if_true, wp_pure]
    exact ⟨world.of_pipes (by rw [pipes]) ok, rfl, rfl, rfl⟩
  | false =>
    simp only [otherOpen, Bool.false_eq_true, if_false] at pipes
    simp only [Bool.false_eq_true, if_false]
    apply onMemory_spec
    apply wp_mono (kfree_spec _ _)
    rintro _ memory ⟨released, _⟩
    have holds : World boot ((kernel.setFiles (closedFile kernel.file f)).setPipes
        (closedPipe kernel.pipe (kernel.file f).pipe (kernel.file f).writable)) absent
        ((kernel.file f).pipe ::ₘ owned) := by
      apply world.of_pipes _ ok
      rw [pipes, Finset.erase_val, Multiset.cons_add, ← Multiset.add_cons, Multiset.cons_erase held]
    exact ⟨holds.exchange (released owned), rfl, rfl, rfl⟩

theorem fileclose_spec (f : Nat) (world : World boot kernel absent owned) :
    wp MayPanic (fileclose f) kernel fun _ after =>
      World boot after absent owned ∧ Dropped f kernel after := by
  simp only [fileclose, wp_bind, wp_get]
  split
  · exact halts (by decide)
  · split
    · simp only [wp_modifyFile]
      refine ⟨world.setRef f _ (by omega), rfl, rfl, by omega, ?_, ?_⟩
      · exact setRef_self kernel.file f _
      · exact fun g different => setRef_of_ne _ different
    · have dropped : ∀ after : Kernel, after.proc = kernel.proc →
          after.initproc = kernel.initproc → after.file = closedFile kernel.file f →
          Dropped f kernel after := by
        intro after proc initproc file
        refine ⟨proc, initproc, by omega, ?_, ?_⟩
        · have last : (kernel.file f).ref - 1 = 0 := by omega
          rw [file, closedFile, update_self, last, withoutRef]
        · intro g different
          rw [file, closedFile_of_ne different]
      have notPipe : (kernel.file f).type ≠ .pipe →
          World boot (kernel.setFiles (closedFile kernel.file f)) absent owned := by
        intro type
        rcases world.files.close_other type with ⟨ok, pipes⟩
        exact world.of_same rfl (fun _ _ => ⟨rfl, rfl, rfl, rfl⟩) pipes ok
      simp only [wp_bind, wp_modifyFile]
      cases type : (kernel.file f).type with
      | pipe =>
        apply wp_mono (pipeclose_spec world type)
        rintro _ after ⟨world', proc, initproc, file⟩
        exact ⟨world', dropped after proc initproc file⟩
      | _ =>
        exact wp_pure.mpr ⟨notPipe (by simp [type]), dropped _ rfl rfl rfl⟩

end Xv6.Kernel
