import Xv6.Fs.Format

/-! # Names

The functions of `string.c` that the file system uses. A string is the list of its
bytes; it ends at the first zero byte, or where the list ends. -/

namespace Xv6.Fs

def strncmp : List UInt8 → List UInt8 → Nat → Int
  | _, _, 0 => 0
  | p, q, n + 1 =>
    if p.headD 0 ≠ 0 ∧ p.headD 0 = q.headD 0 then strncmp p.tail q.tail n
    else (p.headD 0).toNat - (q.headD 0).toNat

/-- What `strncpy` stores: the bytes up to the zero byte, and zeros. -/
def strncpy : List UInt8 → Nat → List UInt8
  | _, 0 => []
  | t, n + 1 =>
    if t.headD 0 = 0 then List.replicate (n + 1) 0 else t.headD 0 :: strncpy t.tail n

def namecmp (s t : List UInt8) : Int := strncmp s t dirSiz

/-! ## What a name stands for -/

/-- The bytes of a string up to a zero byte, and at most `n` of them. -/
def string (n : Nat) (bytes : List UInt8) : List UInt8 := (bytes.take n).takeWhile (· != 0)

/-- The name that a buffer of `DIRSIZ` bytes holds. -/
def nameOf (bytes : List UInt8) : List UInt8 := string dirSiz bytes

theorem string_succ (n : Nat) (bytes : List UInt8) : string (n + 1) bytes =
    if bytes.headD 0 = 0 then [] else bytes.headD 0 :: string n bytes.tail := by
  cases bytes with
  | nil => rfl
  | cons byte rest =>
    by_cases zero : byte = 0 <;> simp [string, zero]

theorem strncmp_eq_zero (s t : List UInt8) (n : Nat) :
    strncmp s t n = 0 ↔ string n s = string n t := by
  induction n generalizing s t with
  | zero =>
    rw [strncmp]
    simp [string]
  | succ n induction =>
    rw [strncmp, string_succ, string_succ]
    generalize s.headD 0 = first
    generalize t.headD 0 = second
    by_cases same : first ≠ 0 ∧ first = second
    · rw [if_pos same, if_neg same.1, if_neg (same.2 ▸ same.1), induction, same.2]
      simp
    · rw [if_neg same, Int.sub_eq_zero, Int.natCast_inj, UInt8.toNat_inj]
      by_cases zero : first = 0
      · by_cases other : second = 0
        · simp [zero, other]
        · simp [zero, other, Ne.symm other]
      · have apart : first ≠ second := fun equal => same ⟨zero, equal⟩
        by_cases other : second = 0
        · simp [zero, other]
        · simp [zero, other, apart]

theorem namecmp_eq_zero (s t : List UInt8) : namecmp s t = 0 ↔ nameOf s = nameOf t :=
  strncmp_eq_zero s t dirSiz

@[simp] theorem strncpy_length (t : List UInt8) (n : Nat) : (strncpy t n).length = n := by
  induction n generalizing t with
  | zero => rfl
  | succ n induction =>
    rw [strncpy]
    split
    · exact List.length_replicate
    · rw [List.length_cons, induction]

end Xv6.Fs
