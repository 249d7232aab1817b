import Xv6.Vm.Duplicate

/-! # Copies to and from user memory

What `copyin`, `copyout` and `copyinstr` do, byte by byte, for every page table and every
address. An address is accessible when its page is mapped for the user; the three loops go
on until the first address that is not. -/

namespace Xv6.Vm

open StateProg
open Prog (wp_bind wp_mono wp_pure)
open Function (update update_self update_of_ne update_idem)

/-! ## User memory, seen from the user -/

/-- The page behind an address, if the user may access it. -/
def userPage (cell : Nat → Page) (table va : Nat) : Option Nat :=
  if va < maxVa ∧ hasFlag (leafAt cell va 2 table) pteV = true ∧
      hasFlag (leafAt cell va 2 table) pteU = true ∧ pte2pa (leafAt cell va 2 table) ≠ 0 then
    some (pte2pa (leafAt cell va 2 table))
  else none

def Accessible (cell : Nat → Page) (table va : Nat) : Prop :=
  (userPage cell table va).isSome = true

def userByte (cell : Nat → Page) (table va : Nat) : UInt8 :=
  (userPage cell table va).elim 0 fun pa => (cell pa).byteAt (va % pgSize)

/-- The `n` bytes from `va` on. -/
def userBytes (cell : Nat → Page) (table va n : Nat) : List UInt8 :=
  (List.range n).map fun i => userByte cell table (va + i)

/-- Of `len` bytes from `va` on, the first `n` are those before the first one that is not
accessible. -/
structure Reach (cell : Nat → Page) (table va len n : Nat) : Prop where
  within : n ≤ len
  accessible : ∀ i < n, Accessible cell table (va + i)
  stops : n < len → ¬Accessible cell table (va + n)

/-- Store bytes one after the other, each at the page behind its address. -/
def storeBytes (page : Nat → Option Nat) :
    (bytes : List UInt8) → (va : Nat) → (cell : Nat → Page) → Nat → Page
  | [], _, cell => cell
  | byte :: rest, va, cell =>
    storeBytes page rest (va + 1) ((page va).elim cell fun pa =>
      update cell pa ((cell pa).write (va % pgSize) [byte]))

section Bytes

variable {cell after : Nat → Page} {table va pa : Nat}

theorem userPage_eq_some : userPage cell table va = some pa → va < maxVa ∧
    hasFlag (leafAt cell va 2 table) pteV = true ∧ hasFlag (leafAt cell va 2 table) pteU = true ∧
      pa = pte2pa (leafAt cell va 2 table) := by
  unfold userPage
  split
  · rename_i inside
    intro same
    cases same
    exact ⟨inside.1, inside.2.1, inside.2.2.1, rfl⟩
  · intro missing
    cases missing

theorem userPage_congr (same : ∀ page ∈ tables cell 2 table, after page = cell page) :
    userPage after table = userPage cell table := by
  funext va
  rw [userPage, userPage, leafAt_congr same]

variable {other : Nat}

theorem userPage_same (same : va / pgSize = other / pgSize) :
    userPage cell table va = userPage cell table other := by
  have below : va < maxVa ↔ other < maxVa := by
    unfold maxVa
    unfold pgSize at same
    omega
  by_cases inRange : va < maxVa
  · have bounds : va < 2 ^ 39 ∧ other < 2 ^ 39 := by
      have inRange' := below.mp inRange
      unfold maxVa at inRange inRange'
      omega
    rw [userPage, userPage, leafAt_page bounds.1, leafAt_page bounds.2, same]
    simp only [below]
  · rw [userPage, userPage, if_neg fun inside => inRange inside.1,
      if_neg fun inside => inRange (below.mpr inside.1)]

theorem add_div_pgSize (inside : va % pgSize + i < pgSize) :
    va / pgSize = (va + i) / pgSize ∧ (va + i) % pgSize = va % pgSize + i := by
  unfold pgSize at *
  omega

theorem userPage_add (inside : va % pgSize + i < pgSize) :
    userPage cell table (va + i) = userPage cell table va :=
  (userPage_same (add_div_pgSize inside).1).symm

theorem userPage_roundDown : userPage cell table (pgRoundDown va) = userPage cell table va := by
  apply userPage_same
  unfold pgRoundDown
  rw [Nat.mul_div_cancel _ (by decide)]

theorem userByte_eq (found : userPage cell table va = some pa) :
    userByte cell table va = (cell pa).byteAt (va % pgSize) := by
  rw [userByte, found, Option.elim_some]

theorem userBytes_zero : userBytes cell table va 0 = [] := rfl

variable {n : Nat}

theorem userBytes_length : (userBytes cell table va n).length = n := by
  rw [userBytes, List.length_map, List.length_range]

theorem userBytes_add {m n : Nat} :
    userBytes cell table va (m + n) =
      userBytes cell table va m ++ userBytes cell table (va + m) n := by
  rw [userBytes, userBytes, userBytes, List.range_add, List.map_append, List.map_map]
  simp only [Function.comp_def, Nat.add_assoc]

theorem userBytes_succ :
    userBytes cell table va (n + 1) =
      userByte cell table va :: userBytes cell table (va + 1) n := by
  rw [Nat.add_comm, userBytes_add]
  rfl

theorem takeWhile_userBytes (n : Nat) :
    ∃ k ≤ n, (userBytes cell table va n).takeWhile (· != 0) = userBytes cell table va k ∧
      (∀ i < k, userByte cell table (va + i) ≠ 0) ∧ (k < n → userByte cell table (va + k) = 0) := by
  induction n generalizing va with
  | zero => exact ⟨0, Nat.le_refl 0, rfl, by omega, by omega⟩
  | succ n induction =>
    rw [userBytes_succ, List.takeWhile_cons]
    split
    · rename_i text
      rcases @induction (va + 1) with ⟨k, bound, rest, before, ends⟩
      refine ⟨k + 1, by omega, ?_, ?_, ?_⟩
      · rw [rest, userBytes_succ]
      · intro i below
        cases i with
        | zero => exact bne_iff_ne.mp text
        | succ i =>
          have later := before i (by omega)
          rwa [Nat.add_assoc, Nat.add_comm 1] at later
      · intro below
        have last := ends (by omega)
        rwa [Nat.add_assoc, Nat.add_comm 1] at last
    · rename_i nul
      refine ⟨0, Nat.zero_le _, rfl, by omega, fun _ => ?_⟩
      rw [bne_iff_ne, ne_eq, not_not] at nul
      exact nul

theorem userBytes_page (found : userPage cell table va = some pa)
    (inside : va % pgSize + n ≤ pgSize) :
    userBytes cell table va n = (cell pa).read (va % pgSize) n := by
  rw [userBytes, Bytes.read]
  apply List.map_congr_left
  intro i member
  have within : va % pgSize + i < pgSize := by
    have bound := List.mem_range.mp member
    omega
  rw [userByte, userPage_add within, found, Option.elim_some, (add_div_pgSize within).2]

namespace Reach

variable {len n : Nat}

theorem zero : Reach cell table va 0 0 := by
  refine ⟨Nat.le_refl 0, ?_, ?_⟩
  · intro i below
    omega
  · intro below
    omega

theorem stopped (missing : userPage cell table va = none) : Reach cell table va len 0 := by
  refine ⟨Nat.zero_le len, ?_, ?_⟩
  · intro i below
    omega
  · intro _ accessible
    rw [Accessible, Nat.add_zero, missing] at accessible
    cases accessible

theorem page (found : userPage cell table va = some pa) (fits : count ≤ len)
    (inside : va % pgSize + count ≤ pgSize) (same : count < len → next = va + count)
    (rest : Reach cell table next (len - count) n) :
    Reach cell table va len (count + n) ∧
      userBytes cell table va (count + n) =
        (cell pa).read (va % pgSize) count ++ userBytes cell table next n := by
  have within := rest.within
  refine ⟨⟨by omega, ?_, ?_⟩, ?_⟩
  · intro i below
    rcases Nat.lt_or_ge i count with first | later
    · rw [Accessible, userPage_add (by omega), found]
      rfl
    · have accessible := rest.accessible (i - count) (by omega)
      rwa [same (by omega), show va + count + (i - count) = va + i by omega] at accessible
  · intro below
    have missing := rest.stops (by omega)
    rwa [same (by omega), Nat.add_assoc] at missing
  · rw [userBytes_add, userBytes_page found inside]
    rcases Nat.eq_zero_or_pos n with rfl | positive
    · rfl
    · rw [same (by omega)]

theorem cons (accessible : Accessible cell table va) (rest : Reach cell table (va + 1) len n) :
    Reach cell table va (len + 1) (n + 1) := by
  have within := rest.within
  refine ⟨by omega, ?_, ?_⟩
  · intro i below
    cases i with
    | zero => exact accessible
    | succ i =>
      have later := rest.accessible i (by omega)
      rwa [Nat.add_assoc, Nat.add_comm 1] at later
  · intro below
    have missing := rest.stops (by omega)
    rwa [Nat.add_assoc, Nat.add_comm 1] at missing

theorem unique (reach : Reach cell table va len n) (reach' : Reach cell table va len n') :
    n = n' := by
  have within := reach.within
  have within' := reach'.within
  rcases lt_trichotomy n n' with less | equal | greater
  · exact absurd (reach'.accessible n less) (reach.stops (by omega))
  · exact equal
  · exact absurd (reach.accessible n' greater) (reach'.stops (by omega))

theorem eq_iff (reach : Reach cell table va len n) :
    n = len ↔ ∀ i < len, Accessible cell table (va + i) := by
  constructor
  · rintro rfl
    exact reach.accessible
  · intro all
    by_contra different
    have within := reach.within
    exact reach.stops (by omega) (all n (by omega))

end Reach

theorem storeBytes_append {page : Nat → Option Nat} (first second : List UInt8) (va : Nat)
    (cell : Nat → Page) :
    storeBytes page (first ++ second) va cell =
      storeBytes page second (va + first.length) (storeBytes page first va cell) := by
  induction first generalizing va cell with
  | nil => rfl
  | cons byte rest induction =>
    rw [List.cons_append, storeBytes, storeBytes, induction, List.length_cons, Nat.add_assoc,
      Nat.add_comm 1]

theorem storeBytes_page {page : Nat → Option Nat} (bytes : List UInt8) {cell : Nat → Page}
    (inside : va % pgSize + bytes.length ≤ pgSize)
    (found : ∀ i < bytes.length, page (va + i) = some pa) :
    storeBytes page bytes va cell =
      if bytes = [] then cell
      else update cell pa ((cell pa).write (va % pgSize) bytes) := by
  induction bytes generalizing va cell with
  | nil => rfl
  | cons byte rest induction =>
    rw [List.length_cons] at inside found
    have here := found 0 (Nat.succ_pos _)
    rw [Nat.add_zero] at here
    rw [if_neg (List.cons_ne_nil byte rest), storeBytes, here, Option.elim_some]
    cases rest with
    | nil => rfl
    | cons next rest =>
      rw [List.length_cons] at inside found induction
      have offset : (va + 1) % pgSize = va % pgSize + 1 := by
        unfold pgSize at *
        omega
      rw [induction (by omega) fun i below => by
          rw [Nat.add_assoc, Nat.add_comm 1]
          exact found (i + 1) (by omega),
        if_neg (List.cons_ne_nil next rest), update_idem, update_self, offset,
        Bytes.write_cons]

theorem storeBytes_elsewhere {page : Nat → Option Nat} (bytes : List UInt8) {cell : Nat → Page}
    (apart : ∀ i < bytes.length, page (va + i) ≠ some other) :
    storeBytes page bytes va cell other = cell other := by
  induction bytes generalizing va cell with
  | nil => rfl
  | cons byte rest induction =>
    rw [List.length_cons] at apart
    rw [storeBytes, induction fun i below => by
      rw [Nat.add_assoc, Nat.add_comm 1]
      exact apart (i + 1) (by omega)]
    have here := apart 0 (Nat.succ_pos _)
    rw [Nat.add_zero] at here
    cases found : page va with
    | none => rfl
    | some pa =>
      rw [found] at here
      rw [Option.elim_some, update_of_ne]
      rintro rfl
      exact here rfl

/-- The addresses from `va` on that lead to one byte of memory. -/
def Hits (page : Nat → Option Nat) (va pa offset i : Nat) : Prop :=
  page (va + i) = some pa ∧ (va + i) % pgSize = offset

variable {offset : Nat}

theorem Hits.succ {page : Nat → Option Nat} :
    Hits page (va + 1) pa offset i ↔ Hits page va pa offset (i + 1) := by
  rw [Hits, Hits, Nat.add_assoc, Nat.add_comm 1]

theorem storeBytes_byte {page : Nat → Option Nat} (bytes : List UInt8) {cell : Nat → Page}
    (apart : ∀ i < bytes.length, ¬Hits page va pa offset i) :
    (storeBytes page bytes va cell pa).byteAt offset = (cell pa).byteAt offset := by
  induction bytes generalizing va cell with
  | nil => rfl
  | cons byte rest induction =>
    rw [List.length_cons] at apart
    have here := apart 0 (Nat.succ_pos _)
    rw [storeBytes, induction fun i below => mt Hits.succ.mp (apart (i + 1) (by omega))]
    cases found : page va with
    | none => rfl
    | some other =>
      rw [Option.elim_some]
      by_cases same : pa = other
      · subst same
        have different : va % pgSize ≠ offset := fun equal => here ⟨found, equal⟩
        rw [update_self, Bytes.byteAt_write_outside]
        rw [List.length_singleton]
        omega
      · rw [update_of_ne same]

theorem storeBytes_last {page : Nat → Option Nat} (bytes : List UInt8) (cell : Nat → Page)
    (inside : i < bytes.length) (hits : Hits page va pa offset i) :
    ∃ last < bytes.length, Hits page va pa offset last ∧
      (storeBytes page bytes va cell pa).byteAt offset = bytes.getD last 0 := by
  induction bytes generalizing va cell i with
  | nil => cases inside
  | cons byte rest induction =>
    rw [List.length_cons] at inside ⊢
    by_cases later : ∃ j < rest.length, Hits page (va + 1) pa offset j
    · rcases later with ⟨j, below, hitsLater⟩
      rcases induction _ below hitsLater with ⟨last, bound, lastHits, stored⟩
      refine ⟨last + 1, by omega, Hits.succ.mp lastHits, ?_⟩
      rw [storeBytes, stored, List.getD_cons_succ]
    · have first : i = 0 := by
        by_contra positive
        apply later
        refine ⟨i - 1, by omega, Hits.succ.mpr ?_⟩
        rwa [Nat.sub_add_cancel (Nat.pos_of_ne_zero positive)]
      subst first
      refine ⟨0, Nat.succ_pos _, hits, ?_⟩
      have none : ∀ j < rest.length, ¬Hits page (va + 1) pa offset j :=
        fun j below hitsLater => later ⟨j, below, hitsLater⟩
      rw [storeBytes, storeBytes_byte rest none]
      rcases hits with ⟨found, rfl⟩
      rw [Nat.add_zero] at found
      have fits : va % pgSize < pgSize := Nat.mod_lt _ (by decide)
      rw [found, Option.elim_some, update_self, Nat.add_zero,
        Bytes.byteAt_write_inside _ _ fits (Nat.le_refl _) (by rw [List.length_singleton]; omega),
        Nat.sub_self]
      rfl

end Bytes

/-! ## The loops -/

section Loops

variable {allowed : String → Prop} {table : Nat} {memory : Memory}

theorem wp_walkaddr {post : Option Nat → Memory → Prop}
    (holds : post (userPage memory.cell table va) memory) :
    wp allowed (walkaddr table va) memory post := by
  unfold walkaddr
  split
  · rename_i above
    rw [userPage, if_neg fun inside => absurd inside.1 (Nat.not_lt.mpr above)] at holds
    exact wp_pure.mpr holds
  · rename_i inRange
    apply wp_bind.mpr
    rw [walk, if_neg inRange]
    apply walkFrom_noalloc
    cases found : lowest memory.cell va 2 table with
    | none =>
      have zero := leafAt_of_lowest_eq_none found
      have invalid : ¬hasFlag (leafAt memory.cell va 2 table) pteV = true := by
        rw [zero]
        decide
      rw [userPage, if_neg fun inside => invalid inside.2.1] at holds
      exact wp_pure.mpr holds
    | some low =>
      simp only [Option.map_some, wp_bind, wp_loadPte, ← leafAt_of_lowest found]
      rw [userPage] at holds
      split
      · rename_i user
        rw [Bool.and_eq_true] at user
        apply wp_pure.mpr
        split
        · rename_i zero
          rwa [if_neg fun inside => inside.2.2.2 zero] at holds
        · rename_i nonzero
          rwa [if_pos ⟨Nat.not_le.mp inRange, user.1, user.2, nonzero⟩] at holds
      · rename_i notUser
        rw [Bool.and_eq_true] at notUser
        apply wp_pure.mpr
        rwa [if_neg fun inside => notUser ⟨inside.2.1, inside.2.2.1⟩] at holds

variable {len : Nat}

theorem next_page (va : Nat) (positive : 0 < len) :
    min (pgSize - (va - pgRoundDown va)) len ≤ len ∧
      0 < min (pgSize - (va - pgRoundDown va)) len ∧
      va - pgRoundDown va = va % pgSize ∧
      va % pgSize + min (pgSize - (va - pgRoundDown va)) len ≤ pgSize ∧
      (min (pgSize - (va - pgRoundDown va)) len < len →
        pgRoundDown va + pgSize = va + min (pgSize - (va - pgRoundDown va)) len) := by
  unfold pgRoundDown pgSize
  omega

theorem copyinFrom_spec (fuel : Nat) (done : List UInt8) (enough : len ≤ fuel) :
    wp allowed (copyinFrom table fuel va len done) memory fun result after => after = memory ∧
      ∃ n, Reach memory.cell table va len n ∧
        result = (decide (n = len), done ++ userBytes memory.cell table va n) := by
  induction fuel generalizing va len done with
  | zero =>
    obtain rfl : len = 0 := by omega
    exact wp_pure.mpr ⟨rfl, 0, .zero, by rw [userBytes_zero, List.append_nil]; rfl⟩
  | succ fuel induction =>
    unfold copyinFrom
    split
    · rename_i zero
      subst zero
      exact wp_pure.mpr ⟨rfl, 0, .zero, by rw [userBytes_zero, List.append_nil]; rfl⟩
    · rename_i positive
      rcases next_page va (Nat.pos_of_ne_zero positive) with
        ⟨fits, some, offset, inside, next⟩
      apply wp_bind.mpr
      apply wp_walkaddr
      rw [userPage_roundDown]
      cases found : userPage memory.cell table va with
      | none =>
        have stops : decide (0 = len) = false := decide_eq_false (by omega)
        exact wp_pure.mpr ⟨rfl, 0, .stopped found, by
          rw [userBytes_zero, List.append_nil, stops]⟩
      | some pa =>
        simp only [readPage, wp_bind, wp_get, wp_pure]
        rw [offset] at fits some inside next ⊢
        generalize min (pgSize - va % pgSize) len = count at fits some inside next ⊢
        apply wp_mono (induction (done ++ (memory.cell pa).read (va % pgSize) count)
          (show len - count ≤ fuel by omega))
        rintro result after ⟨rfl, n, rest, rfl⟩
        rcases rest.page found fits inside next with ⟨reach, bytes⟩
        refine ⟨rfl, count + n, reach, ?_⟩
        rw [bytes, List.append_assoc, Prod.mk.injEq]
        exact ⟨decide_eq_decide.mpr (by omega), rfl⟩

/-- A string with its NUL at `k`. -/
structure StringAt (cell : Nat → Page) (table va k : Nat) : Prop where
  accessible : ∀ i ≤ k, Accessible cell table (va + i)
  text : ∀ i < k, userByte cell table (va + i) ≠ 0
  ends : userByte cell table (va + k) = 0

variable {cell : Nat → Page} {va : Nat}

theorem StringAt.after (string : StringAt cell table (va + k) j)
    (accessible : ∀ i < k, Accessible cell table (va + i))
    (text : ∀ i < k, userByte cell table (va + i) ≠ 0) : StringAt cell table va (k + j) := by
  have shift : ∀ i, k ≤ i → va + k + (i - k) = va + i := by omega
  refine ⟨?_, ?_, ?_⟩
  · intro i below
    rcases Nat.lt_or_ge i k with first | later
    · exact accessible i first
    · rw [← shift i later]
      exact string.accessible (i - k) (by omega)
  · intro i below
    rcases Nat.lt_or_ge i k with first | later
    · exact text i first
    · rw [← shift i later]
      exact string.text (i - k) (by omega)
  · rw [← Nat.add_assoc]
    exact string.ends

theorem copyinstrFrom_spec (fuel : Nat) {max : Nat} (done : List UInt8) (enough : max ≤ fuel) :
    wp allowed (copyinstrFrom table fuel va max done) memory fun result after => after = memory ∧
      ((∃ k < max, StringAt memory.cell table va k ∧
        result = (true, done ++ userBytes memory.cell table va (k + 1))) ∨
      ∃ n, Reach memory.cell table va max n ∧ (∀ i < n, userByte memory.cell table (va + i) ≠ 0) ∧
        result = (false, done ++ userBytes memory.cell table va n)) := by
  have nothing : ∀ done va,
      Prod.mk false done = (false, done ++ userBytes memory.cell table va 0) := by
    intro done va
    rw [userBytes_zero, List.append_nil]
  induction fuel generalizing va max done with
  | zero =>
    obtain rfl : max = 0 := by omega
    exact wp_pure.mpr ⟨rfl, .inr ⟨0, .zero, by omega, nothing done va⟩⟩
  | succ fuel induction =>
    unfold copyinstrFrom
    split
    · rename_i zero
      subst zero
      exact wp_pure.mpr ⟨rfl, .inr ⟨0, .zero, by omega, nothing done va⟩⟩
    · rename_i positive
      rcases next_page va (Nat.pos_of_ne_zero positive) with
        ⟨fits, some, offset, inside, next⟩
      apply wp_bind.mpr
      apply wp_walkaddr
      rw [userPage_roundDown]
      cases found : userPage memory.cell table va with
      | none =>
        exact wp_pure.mpr ⟨rfl, .inr ⟨0, .stopped found, by omega, nothing done va⟩⟩
      | some pa =>
        simp only [readPage, wp_bind, wp_get, wp_pure]
        rw [offset] at fits some inside next ⊢
        generalize min (pgSize - va % pgSize) max = count at fits some inside next ⊢
        rw [← userBytes_page found inside]
        rcases @takeWhile_userBytes memory.cell table va count with
          ⟨k, bound, text, before, ends⟩
        rw [text, userBytes_length, userBytes_length]
        split
        · rename_i shorter
          have nul : [0] = userBytes memory.cell table (va + k) 1 := by
            rw [userBytes_succ, userBytes_zero, ends shorter]
          refine wp_pure.mpr ⟨rfl, .inl ⟨k, by omega, ⟨?_, before, ends shorter⟩, ?_⟩⟩
          · intro i below
            rw [Accessible, userPage_add (by omega), found]
            rfl
          · rw [userBytes_add, ← nul, List.append_assoc]
        · obtain rfl : k = count := by omega
          apply wp_mono (induction (done ++ userBytes memory.cell table va k)
            (show max - k ≤ fuel by omega))
          rintro result after ⟨rfl, stringOrNot⟩
          refine ⟨rfl, ?_⟩
          rcases stringOrNot with ⟨j, below, string, rfl⟩ | ⟨n, rest, none, rfl⟩
          · rw [next (by omega)] at string ⊢
            refine .inl ⟨k + j, by omega, string.after ?_ before, ?_⟩
            · intro i early
              rw [Accessible, userPage_add (by omega), found]
              rfl
            · rw [Nat.add_assoc k j 1, @userBytes_add _ _ _ k (j + 1), List.append_assoc]
          · rcases rest.page found fits inside next with ⟨reach, bytes⟩
            refine .inr ⟨k + n, reach, ?_, ?_⟩
            · intro i early
              rcases Nat.lt_or_ge i k with first | later
              · exact before i first
              · have within := rest.within
                have nonzero := none (i - k) (by omega)
                rwa [next (by omega), show va + k + (i - k) = va + i by omega] at nonzero
            · rw [bytes, ← userBytes_page found inside, List.append_assoc]

/-- No page of the page table is mapped for the user. -/
def TablesApart (cell : Nat → Page) (table : Nat) : Prop :=
  ∀ va pa, userPage cell table va = some pa → pa ∉ tables cell 2 table

theorem TablesApart.userPage_storeBytes (apart : TablesApart cell table) (bytes : List UInt8)
    (va : Nat) :
    userPage (storeBytes (userPage cell table) bytes va cell) table = userPage cell table := by
  apply userPage_congr
  intro page member
  apply storeBytes_elsewhere
  intro i _ found
  exact apart _ page found member

variable {before : Memory}

section

variable (apart : TablesApart before.cell table)

include apart

theorem copyoutFrom_stores (fuel : Nat) {src : List UInt8} {memory : Memory}
    (enough : src.length ≤ fuel)
    (kept : ∀ page ∈ tables before.cell 2 table, memory.cell page = before.cell page) :
    wp allowed (copyoutFrom table fuel va src) memory fun done after =>
      ∃ n, Reach before.cell table va src.length n ∧ done = decide (n = src.length) ∧
        after = { memory with
          cell := storeBytes (userPage before.cell table) (src.take n) va memory.cell } := by
  induction fuel generalizing va src memory with
  | zero =>
    obtain rfl : src = [] := List.eq_nil_of_length_eq_zero (by omega)
    exact wp_pure.mpr ⟨0, .zero, rfl, rfl⟩
  | succ fuel induction =>
    unfold copyoutFrom
    split
    · rename_i empty
      obtain rfl := List.isEmpty_iff.mp empty
      exact wp_pure.mpr ⟨0, .zero, rfl, rfl⟩
    · rename_i nonempty
      have positive : 0 < src.length := by
        apply List.length_pos_iff.mpr
        exact fun empty => nonempty (List.isEmpty_iff.mpr empty)
      rcases next_page va positive with ⟨fits, some, offset, inside, next⟩
      apply wp_bind.mpr
      apply wp_walkaddr
      rw [userPage_congr kept, userPage_roundDown]
      cases found : userPage before.cell table va with
      | none =>
        have stops : decide (0 = src.length) = false := decide_eq_false (by omega)
        exact wp_pure.mpr ⟨0, .stopped found, stops.symm, rfl⟩
      | some pa =>
        simp only [writePage, wp_bind, wp_modify]
        rw [offset] at fits some inside next ⊢
        generalize min (pgSize - va % pgSize) src.length = count at fits some inside next ⊢
        have same : ∀ page ∈ tables before.cell 2 table,
            update memory.cell pa ((memory.cell pa).write (va % pgSize)
              (src.take count)) page = before.cell page := by
          intro page member
          rw [update_of_ne, kept page member]
          rintro rfl
          exact apart va page found member
        have length : (src.take count).length = count := by
          rw [List.length_take]
          omega
        have stored : update memory.cell pa ((memory.cell pa).write (va % pgSize)
            (src.take count)) =
            storeBytes (userPage before.cell table) (src.take count) va memory.cell := by
          rw [storeBytes_page _ (by omega) fun i below => by
              rw [userPage_add (by omega), found],
            if_neg fun empty => by rw [empty] at length; exact absurd length (by simp; omega)]
        apply wp_mono (induction (by rw [List.length_drop]; omega) same)
        rintro done after ⟨n, rest, rfl, rfl⟩
        rw [List.length_drop] at rest ⊢
        refine ⟨count + n, (rest.page found fits inside next).1,
          decide_eq_decide.mpr (by omega), ?_⟩
        rw [stored, List.take_add, storeBytes_append, length]
        rcases Nat.eq_zero_or_pos n with rfl | more
        · rfl
        · rw [next (by have := rest.within; omega)]

theorem wp_copyoutByte {post : Bool → Memory → Prop}
    (kept : ∀ page ∈ tables before.cell 2 table, memory.cell page = before.cell page)
    (copied : Accessible before.cell table va →
      post true { memory with
        cell := storeBytes (userPage before.cell table) [ch] va memory.cell })
    (fault : ¬Accessible before.cell table va → post false memory) :
    wp allowed (copyout table va [ch]) memory post := by
  apply wp_mono (copyoutFrom_stores apart 1 (show [ch].length ≤ 1 from Nat.le_refl 1) kept)
  rintro done after ⟨n, reach, rfl, rfl⟩
  have within := reach.within
  rw [List.length_singleton] at within reach ⊢
  rcases Nat.eq_zero_or_pos n with rfl | positive
  · exact fault (reach.stops (by decide))
  · obtain rfl : n = 1 := by omega
    exact copied (reach.accessible 0 (by decide))

theorem storeBytes_tables (bytes : List UInt8) (va : Nat)
    (kept : ∀ page ∈ tables before.cell 2 table, memory.cell page = before.cell page) :
    ∀ page ∈ tables before.cell 2 table,
      storeBytes (userPage before.cell table) bytes va memory.cell page = before.cell page := by
  intro page member
  rw [storeBytes_elsewhere, kept page member]
  exact fun i _ found => apart _ page found member

end

end Loops

section Small

attribute [local instance] Kernel.smallImage

theorem smallParent_apart : TablesApart smallParent.cell smallOld := by
  intro va pa found
  rcases userPage_eq_some found with ⟨inRange, valid, _, rfl⟩
  have wide : va < 2 ^ 39 := by
    unfold maxVa at inRange
    omega
  rw [leafAt_page wide] at valid ⊢
  by_cases mapped : va / pgSize ∈ pageRange 0 1
  · have held := smallStart_safe.exchange (smallParent_exchange.frame {smallNew})
    have disjoint := (Multiset.nodup_add.mp (Multiset.nodup_add.mp held.owned_nodup).1).2.2
    exact fun isTable => Multiset.disjoint_left.mp disjoint isTable
      (mem_mappedPages_of_valid mapped valid)
  · have small : va / pgSize < 2 ^ 27 := by
      unfold pgSize
      omega
    rw [smallParent_filled.same _ small mapped, leafAt_zero rfl] at valid
    exact absurd valid (by decide)

end Small

/-! A page table that maps physical page 0 for the user: `walkaddr` returns its address,
and `copyin` takes that for a failure. -/

end Xv6.Vm
