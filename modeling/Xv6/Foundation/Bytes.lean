import Mathlib.Data.List.Basic
import Mathlib.Tactic.Ring

/-! # Byte arrays of fixed length

Windows of consecutive bytes in an array, and little-endian numbers stored in
them. A window that is read back where it was written has the bytes that were
written; a window that does not meet the written one is unchanged. -/

namespace Xv6

/-- An array of `size` bytes. -/
abbrev Bytes (size : Nat) := Fin size → UInt8

namespace Bytes

/-- The byte at an index, and zero past the end. -/
def byteAt (data : Bytes size) (index : Nat) : UInt8 :=
  if inside : index < size then data ⟨index, inside⟩ else 0

/-- The `length` bytes from `offset` on. -/
def read (data : Bytes size) (offset length : Nat) : List UInt8 :=
  (List.range length).map fun index => data.byteAt (offset + index)

/-- Store the bytes of a list from `offset` on. -/
def write (data : Bytes size) (offset : Nat) (source : List UInt8) : Bytes size :=
  fun index =>
    if offset ≤ index.val ∧ index.val < offset + source.length then
      source.getD (index.val - offset) 0
    else data index

@[simp] theorem read_length (data : Bytes size) (offset length : Nat) :
    (data.read offset length).length = length := by
  simp [read]

variable {index offset : Nat}

theorem byteAt_write_inside (data : Bytes size) (source : List UInt8) (fits : index < size)
    (lower : offset ≤ index) (upper : index < offset + source.length) :
    (data.write offset source).byteAt index = source.getD (index - offset) 0 := by
  simp [byteAt, write, fits, lower, upper]

theorem byteAt_write_outside (data : Bytes size) (source : List UInt8)
    (outside : index < offset ∨ offset + source.length ≤ index) :
    (data.write offset source).byteAt index = data.byteAt index := by
  unfold byteAt write
  split
  · rw [if_neg]
    dsimp only
    omega
  · rfl

theorem write_cons (data : Bytes size) (offset : Nat) (byte : UInt8) (rest : List UInt8) :
    (data.write offset [byte]).write (offset + 1) rest = data.write offset (byte :: rest) := by
  funext index
  unfold write
  simp only [List.length_cons, List.length_nil]
  by_cases first : index.val = offset
  · rw [if_neg (by omega), if_pos (by omega), if_pos (by omega), first, Nat.sub_self]
    rfl
  · by_cases later : offset + 1 ≤ index.val ∧ index.val < offset + 1 + rest.length
    · have shift : index.val - offset = index.val - (offset + 1) + 1 := by omega
      rw [if_pos later, if_pos (by omega), shift, List.getD_cons_succ]
    · rw [if_neg later, if_neg (by omega), if_neg (by omega)]

theorem read_write_same (data : Bytes size) (offset : Nat) (source : List UInt8)
    (fits : offset + source.length ≤ size) :
    (data.write offset source).read offset source.length = source := by
  apply List.ext_getElem
  · simp
  · intro index _ bound
    simp only [read, List.getElem_map, List.getElem_range]
    rw [byteAt_write_inside data source (by omega) (by omega) (by omega)]
    simp [bound]

variable {length other : Nat}

theorem read_write_disjoint (data : Bytes size) (source : List UInt8)
    (disjoint : offset + source.length ≤ other ∨ other + length ≤ offset) :
    (data.write offset source).read other length = data.read other length := by
  apply List.map_congr_left
  intro index member
  rw [List.mem_range] at member
  exact byteAt_write_outside data source (by omega)

/-- A window inside the written one has a part of the bytes that were written. -/
theorem read_write_within (data : Bytes size) (offset : Nat) (source : List UInt8)
    (inside : start + length ≤ source.length) (fits : offset + source.length ≤ size) :
    (data.write offset source).read (offset + start) length = (source.drop start).take length := by
  apply List.ext_getElem
  · simp
    omega
  · intro index short _
    rw [read_length] at short
    simp only [read, List.getElem_map, List.getElem_range]
    rw [byteAt_write_inside data source (by omega) (by omega) (by omega)]
    have position : offset + start + index - offset = start + index := by omega
    simp [position, show start + index < source.length by omega]

/-! ## Little-endian numbers -/

/-- The `width` low bytes of a number, least significant first. -/
def encode : (width value : Nat) → List UInt8
  | 0, _ => []
  | width + 1, value => UInt8.ofNat value :: encode width (value / 256)

/-- The number whose bytes are listed, least significant first. -/
def decode : List UInt8 → Nat
  | [] => 0
  | byte :: rest => byte.toNat + 256 * decode rest

@[simp] theorem encode_length : ∀ width value : Nat, (encode width value).length = width
  | 0, _ => rfl
  | width + 1, value => by simp [encode, encode_length width]

theorem decode_encode : ∀ width value : Nat,
    decode (encode width value) = value % 256 ^ width
  | 0, value => by simp [encode, decode, Nat.mod_one]
  | width + 1, value => by
      rw [encode, decode, decode_encode width, Nat.pow_succ', Nat.mod_mul]
      simp [UInt8.toNat_ofNat']

variable {value width : Nat}

theorem decode_encode_of_lt (bound : value < 256 ^ width) :
    decode (encode width value) = value := by
  rw [decode_encode, Nat.mod_eq_of_lt bound]

theorem decode_lt : ∀ bytes : List UInt8, decode bytes < 256 ^ bytes.length
  | [] => by simp [decode]
  | byte :: rest => by
      have := decode_lt rest
      have := byte.toNat_lt
      rw [decode, List.length_cons, Nat.pow_succ']
      omega

/-- The bytes of the numbers of a list, `width` bytes each. -/
def encodeAll (width : Nat) (values : List Nat) : List UInt8 :=
  values.flatMap (encode width)

@[simp] theorem encodeAll_length (width : Nat) (values : List Nat) :
    (encodeAll width values).length = width * values.length := by
  induction values with
  | nil => rfl
  | cons value rest induction =>
    rw [encodeAll, List.flatMap_cons, List.length_append, encode_length, List.length_cons,
      ← encodeAll, induction]
    ring

/-- The bytes of one number of the list. -/
theorem encodeAll_window (width : Nat) {values : List Nat} (inside : index < values.length) :
    ((encodeAll width values).drop (width * index)).take width = encode width values[index] := by
  induction values generalizing index with
  | nil => cases inside
  | cons value rest induction =>
    rw [encodeAll, List.flatMap_cons, ← encodeAll]
    cases index with
    | zero =>
      rw [Nat.mul_zero, List.drop_zero, List.take_left' (encode_length width value)]
      rfl
    | succ index =>
      have split : width * (index + 1) = (encode width value).length + width * index := by
        rw [encode_length]
        ring
      rw [split, ← List.drop_drop, List.drop_left]
      exact induction (Nat.lt_of_succ_lt_succ inside)

/-- The `width`-byte number at element `index` of an array of such numbers. -/
def word (data : Bytes size) (width index : Nat) : Nat :=
  decode (data.read (width * index) width)

def setWord (data : Bytes size) (width index value : Nat) : Bytes size :=
  data.write (width * index) (encode width value)

theorem word_lt (data : Bytes size) (width index : Nat) :
    data.word width index < 256 ^ width := by
  simpa [word] using decode_lt (data.read (width * index) width)

theorem word_setWord_same (data : Bytes size) (fits : width * index + width ≤ size)
    (bound : value < 256 ^ width) : (data.setWord width index value).word width index = value := by
  have same := read_write_same data (width * index) (encode width value) (by simpa using fits)
  rw [encode_length] at same
  rw [word, setWord, same, decode_encode_of_lt bound]

theorem word_setWord_ne (data : Bytes size) (different : other ≠ index) :
    (data.setWord width index value).word width other = data.word width other := by
  rw [word, setWord, read_write_disjoint, word]
  rw [encode_length]
  rcases Nat.lt_or_gt_of_ne different with lower | upper
  · have := Nat.mul_le_mul_left width (Nat.succ_le_of_lt lower)
    rw [Nat.mul_succ] at this
    exact .inr this
  · have := Nat.mul_le_mul_left width (Nat.succ_le_of_lt upper)
    rw [Nat.mul_succ] at this
    exact .inl this

theorem word_write_disjoint (data : Bytes size) (source : List UInt8)
    (disjoint : offset + source.length ≤ width * index ∨ width * index + width ≤ offset) :
    (data.write offset source).word width index = data.word width index := by
  rw [word, read_write_disjoint data source disjoint, word]

theorem word_zero (width index : Nat) :
    word (fun _ => 0 : Bytes size) width index = 0 := by
  have zeros : ∀ count, decode (List.replicate count 0) = 0 := by
    intro count
    induction count with
    | zero => rfl
    | succ count induction => simp [List.replicate_succ, decode, induction]
  have zero : ∀ offset, byteAt (fun _ => 0 : Bytes size) offset = 0 := by
    intro offset
    unfold byteAt
    split <;> rfl
  simp [word, read, zero, List.map_const', zeros]

end Bytes

end Xv6
