/-!
Bytes in guest order. Numbers are stored least significant byte first (`ofLittleEndian_toLittleEndian`),
in one of four widths; the bytes a block stores are read as slices and written as splices.
-/
namespace GuestMemory

/-! ### Little-endian numbers -/

/-- The `n` low bytes of `value`, least significant first. -/
def toLittleEndian : Nat → Nat → List UInt8
  | 0, _ => []
  | n + 1, value => UInt8.ofNat value :: toLittleEndian n (value / 256)

def ofLittleEndian : List UInt8 → Nat
  | [] => 0
  | b :: rest => b.toNat + 256 * ofLittleEndian rest

@[simp] theorem length_toLittleEndian (n value : Nat) : (toLittleEndian n value).length = n := by
  induction n generalizing value with
  | zero => rfl
  | succ n ih => simp [toLittleEndian, ih]

theorem ofLittleEndian_toLittleEndian (n value : Nat) :
    ofLittleEndian (toLittleEndian n value) = value % Nat.pow 256 n := by
  induction n generalizing value with
  | zero => exact (Nat.mod_one value).symm
  | succ n ih =>
    change (UInt8.ofNat value).toNat + 256 * ofLittleEndian (toLittleEndian n (value / 256)) =
      value % (Nat.pow 256 n * 256)
    rw [ih, UInt8.toNat_ofNat', Nat.mul_comm (Nat.pow 256 n), Nat.mod_mul]

theorem toLittleEndian_ofLittleEndian (bytes : List UInt8) :
    toLittleEndian bytes.length (ofLittleEndian bytes) = bytes := by
  induction bytes with
  | nil => rfl
  | cons b rest ih =>
    have bound := b.toNat_lt
    simp only [List.length_cons, toLittleEndian, ofLittleEndian]
    rw [show (b.toNat + 256 * ofLittleEndian rest) / 256 = ofLittleEndian rest by omega, ih]
    congr 1
    apply UInt8.toNat_inj.mp
    rw [UInt8.toNat_ofNat']
    omega

theorem ofLittleEndian_lt (bytes : List UInt8) : ofLittleEndian bytes < Nat.pow 256 bytes.length := by
  induction bytes with
  | nil => exact Nat.one_pos
  | cons b rest ih =>
    have bound := b.toNat_lt
    show b.toNat + 256 * ofLittleEndian rest < Nat.pow 256 rest.length * 256
    omega

/-! ### Widths -/

/-- The widths of a typed access. -/
inductive Width where
  | byte | word | doubleword | quadword
  deriving DecidableEq, Repr

namespace Width

/-- Bytes transferred. -/
def size : Width → Nat
  | byte => 1
  | word => 2
  | doubleword => 4
  | quadword => 8

abbrev Value (w : Width) := BitVec (8 * w.size)

def encode (w : Width) (value : w.Value) : List UInt8 := toLittleEndian w.size value.toNat

def decode (w : Width) (bytes : List UInt8) : w.Value := BitVec.ofNat _ (ofLittleEndian bytes)

@[simp] theorem length_encode (w : Width) (value : w.Value) : (w.encode value).length = w.size :=
  length_toLittleEndian ..

theorem encode_ne_nil (w : Width) (value : w.Value) : w.encode value ≠ [] := by
  rw [← List.length_pos_iff, length_encode]
  cases w <;> decide

theorem decode_encode (w : Width) (value : w.Value) : w.decode (w.encode value) = value := by
  have bound : value.toNat < Nat.pow 256 w.size := Nat.lt_of_lt_of_eq value.isLt (by cases w <;> rfl)
  rw [decode, encode, ofLittleEndian_toLittleEndian, Nat.mod_eq_of_lt bound, BitVec.ofNat_toNat,
    BitVec.setWidth_eq]

/-- As many bytes as the width has make a number that the width can hold. -/
theorem toNat_decode {w : Width} {bytes : List UInt8} (whole : bytes.length = w.size) :
    (w.decode bytes).toNat = ofLittleEndian bytes := by
  have bound : ofLittleEndian bytes < Nat.pow 2 (8 * w.size) :=
    Nat.lt_of_lt_of_eq (ofLittleEndian_lt bytes) (by rw [whole]; cases w <;> rfl)
  rw [decode, BitVec.toNat_ofNat]
  exact Nat.mod_eq_of_lt bound

theorem encode_decode {w : Width} {bytes : List UInt8} (whole : bytes.length = w.size) :
    w.encode (w.decode bytes) = bytes := by
  rw [encode, toNat_decode whole, ← whole, toLittleEndian_ofLittleEndian]

end Width

/-! ### Stored bytes -/

/-- The bytes that a block holds. -/
abbrev Contents := Array UInt8

namespace Contents

def zeros (size : Nat) : Contents := Array.replicate size 0

/-- The bytes from `offset` on, at most `count` of them. -/
def slice (contents : Contents) (offset count : Nat) : List UInt8 :=
  (contents.extract offset (offset + count)).toList

theorem length_slice {contents : Contents} {offset count : Nat} (fits : offset + count ≤ contents.size) :
    (contents.slice offset count).length = count := by
  rw [slice, Array.length_toList, Array.size_extract]
  omega

/-- Two slices, one behind the other, are one. -/
theorem slice_append (contents : Contents) (offset m n : Nat) :
    contents.slice offset m ++ contents.slice (offset + m) n = contents.slice offset (m + n) := by
  rw [slice, slice, slice, ← Array.toList_append, Array.extract_append_extract, Nat.add_assoc,
    Nat.min_eq_left (Nat.le_add_right offset m), Nat.max_eq_right (by omega)]

/-- Overwrites the bytes from `offset` on; bytes past the end are dropped. -/
def splice (contents : Contents) (offset : Nat) : List UInt8 → Contents
  | [] => contents
  | b :: rest => splice (contents.setIfInBounds offset b) (offset + 1) rest

@[simp] theorem size_splice (contents : Contents) (offset : Nat) (bytes : List UInt8) :
    (contents.splice offset bytes).size = contents.size := by
  induction bytes generalizing contents offset with
  | nil => rfl
  | cons b rest ih => rw [splice, ih, Array.size_setIfInBounds]

/-- A byte below the size comes from the splice where that covers it. -/
theorem getElem?_splice (contents : Contents) (offset : Nat) (bytes : List UInt8) (i : Nat)
    (inside : i < contents.size) :
    (contents.splice offset bytes)[i]? =
      if offset ≤ i ∧ i < offset + bytes.length then bytes[i - offset]? else contents[i]? := by
  induction bytes generalizing contents offset with
  | nil => rw [if_neg (by simp)]; rfl
  | cons b rest ih =>
    rw [splice, ih _ _ (by simpa using inside), Array.getElem?_setIfInBounds]
    by_cases here : offset = i
    · subst here
      rw [if_neg (by omega), if_pos rfl, if_pos inside, if_pos ⟨Nat.le_refl _, by simp⟩, Nat.sub_self]
      rfl
    · by_cases after : offset + 1 ≤ i
      · obtain ⟨k, rfl⟩ : ∃ k, i = offset + 1 + k := ⟨i - (offset + 1), by omega⟩
        simp only [here, if_false, List.length_cons]
        rw [show offset + 1 + k - offset = k + 1 by omega, List.getElem?_cons_succ,
          show offset + 1 + k - (offset + 1) = k by omega]
        by_cases short : k < rest.length
        · rw [if_pos ⟨by omega, by omega⟩, if_pos ⟨by omega, by omega⟩]
        · rw [if_neg (by omega), if_neg (by omega)]
      · rw [if_neg (by omega), if_neg here, if_neg (by omega)]

end Contents

end GuestMemory
