import GuestMemory.Proofs.Memory.Related
import Mathlib.Tactic.SplitIfs

/-!
The bytes of storage behind addresses. A directory leads from an address to a cell, which is a byte
of the block in some arena slot; cells do not depend on what is stored, so a write through one
address can be told from a read through another (`lastWritten_eq_some`). What reads return follows
from the cells alone (`load_bytes`, `copyOut_bytes`), whichever way the bytes were fetched.
-/
namespace GuestMemory

/-! ### Addresses -/

namespace Address

theorem toNat_add_of_lt {a : Address} {i : Nat} (inside : a.toNat + i < addressSpaceBytes) :
    (a + UInt32.ofNat i).toNat = a.toNat + i := by
  rw [addressSpaceBytes] at inside
  rw [UInt32.toNat_add, UInt32.toNat_ofNat']
  omega

theorem toNat_blockBase {index : Nat} (inside : index < blockCount) : (blockBase index).toNat = index * blockSize := by
  rw [blockCount] at inside
  rw [blockBase, blockSize, UInt32.toNat_ofNat']
  omega

theorem toNat_add_ofNat {a : Address} {i : Nat} (inside : a.blockOffset + i < blockSize) :
    (a + UInt32.ofNat i).toNat = a.toNat + i := by
  refine toNat_add_of_lt ?_
  have bound := a.toNat_lt
  simp only [blockOffset, blockSize, addressSpaceBytes] at inside ⊢
  omega

/-- From the start of a block, so many steps lead that far into it, or into a block after it. -/
theorem place_add {a : Address} {i : Nat} (aligned : a.blockOffset = 0) (inside : a.toNat + i < addressSpaceBytes) :
    (a + UInt32.ofNat i).blockIndex = a.blockIndex + i / blockSize ∧
      (a + UInt32.ofNat i).blockOffset = i % blockSize := by
  have sum := toNat_add_of_lt inside
  simp only [blockOffset, blockIndex, blockSize] at aligned ⊢
  omega

/-- A step that does not leave the block stays at its index. -/
theorem blockIndex_add {a : Address} {i : Nat} (inside : a.blockOffset + i < blockSize) :
    (a + UInt32.ofNat i).blockIndex = a.blockIndex := by
  have sum := toNat_add_ofNat inside
  simp only [blockOffset, blockIndex, blockSize] at inside ⊢
  omega

theorem blockOffset_add {a : Address} {i : Nat} (inside : a.blockOffset + i < blockSize) :
    (a + UInt32.ofNat i).blockOffset = a.blockOffset + i := by
  have sum := toNat_add_ofNat inside
  simp only [blockOffset, blockSize] at inside ⊢
  omega

theorem add_ofNat_succ (a : Address) (i : Nat) : a + UInt32.ofNat (i + 1) = a + 1 + UInt32.ofNat i := by
  rw [Nat.add_comm, UInt32.ofNat_add, UInt32.add_assoc]
  rfl

end Address

/-! ### Cells -/

/-- One byte of storage. -/
structure Cell where
  handle : Handle
  offset : Nat
  deriving DecidableEq

namespace Directory

/-- The cell behind an address. -/
def cell? (d : Directory) (a : Address) : Option Cell := (d.handleAt a).map (⟨·, a.blockOffset⟩)

theorem cell?_eq_some {d : Directory} {a : Address} {cell : Cell} :
    d.cell? a = some cell ↔ d.handleAt a = some cell.handle ∧ a.blockOffset = cell.offset := by
  simp only [cell?, Option.map_eq_some_iff]
  constructor
  · rintro ⟨h, mapped, rfl⟩
    exact ⟨mapped, rfl⟩
  · rintro ⟨mapped, same⟩
    exact ⟨cell.handle, mapped, by rw [same]⟩

theorem handleAt_add {a : Address} {i : Nat} (inside : a.blockOffset + i < blockSize) (d : Directory) :
    d.handleAt (a + UInt32.ofNat i) = d.handleAt a := by
  rw [handleAt, Address.blockIndex_add inside, handleAt]

/-- The last byte that goes to a cell when `bytes` are written from `a` on. -/
def lastWritten (d : Directory) : Address → List UInt8 → Cell → Option UInt8
  | _, [], _ => none
  | a, b :: rest, cell =>
    (d.lastWritten (a + 1) rest cell).or (if d.cell? a = some cell then some b else none)

theorem lastWritten_eq_none {d : Directory} {bytes : List UInt8} {cell : Cell} :
    ∀ {a : Address}, d.lastWritten a bytes cell = none ↔
      ∀ i < bytes.length, d.cell? (a + UInt32.ofNat i) ≠ some cell := by
  induction bytes with
  | nil => simp [lastWritten]
  | cons b rest ih =>
    intro a
    rw [lastWritten, Option.or_eq_none_iff, ih]
    constructor
    · rintro ⟨later, here⟩ i short
      cases i with
      | zero => simpa using here
      | succ i =>
        rw [Address.add_ofNat_succ]
        exact later i (Nat.lt_of_succ_lt_succ short)
    · intro nowhere
      refine ⟨fun i short => ?_, ?_⟩
      · rw [← Address.add_ofNat_succ]
        exact nowhere (i + 1) (Nat.succ_lt_succ short)
      · have here := nowhere 0 (Nat.succ_pos _)
        simpa using here

/-- The byte comes from the greatest index that leads to the cell. -/
theorem lastWritten_eq_some {d : Directory} {bytes : List UInt8} {cell : Cell} {x : UInt8} :
    ∀ {a : Address} {i : Nat}, bytes[i]? = some x → d.cell? (a + UInt32.ofNat i) = some cell →
      (∀ j, i < j → j < bytes.length → d.cell? (a + UInt32.ofNat j) ≠ some cell) →
      d.lastWritten a bytes cell = some x := by
  induction bytes with
  | nil => simp
  | cons b rest ih =>
    intro a i found leads greatest
    rw [lastWritten]
    cases i with
    | zero =>
      have nowhere : d.lastWritten (a + 1) rest cell = none := by
        refine lastWritten_eq_none.mpr fun j short => ?_
        rw [← Address.add_ofNat_succ]
        exact greatest (j + 1) (Nat.succ_pos j) (Nat.succ_lt_succ short)
      have here : d.cell? a = some cell := by simpa using leads
      simpa [nowhere, here] using found
    | succ i =>
      rw [Address.add_ofNat_succ] at leads
      have later : d.lastWritten (a + 1) rest cell = some x := by
        refine ih found leads fun j after short => ?_
        rw [← Address.add_ofNat_succ]
        exact greatest (j + 1) (Nat.succ_lt_succ after) (Nat.succ_lt_succ short)
      rw [later]
      rfl

theorem lastWritten_append (d : Directory) (later : List UInt8) (cell : Cell) (bytes : List UInt8) :
    ∀ a : Address, d.lastWritten a (bytes ++ later) cell =
      (d.lastWritten (a + UInt32.ofNat bytes.length) later cell).or (d.lastWritten a bytes cell) := by
  induction bytes with
  | nil => simp [lastWritten]
  | cons b rest ih =>
    intro a
    rw [List.cons_append, lastWritten, ih, List.length_cons, Address.add_ofNat_succ, lastWritten,
      Option.or_assoc]

/-- What stays in one block lands there in one piece. -/
theorem lastWritten_within {d : Directory} {h : Handle} (cell : Cell) (bytes : List UInt8) :
    ∀ {a : Address}, d.handleAt a = some h → a.blockOffset + bytes.length ≤ blockSize →
      d.lastWritten a bytes cell =
        if cell.handle = h ∧ a.blockOffset ≤ cell.offset ∧ cell.offset < a.blockOffset + bytes.length then
          bytes[cell.offset - a.blockOffset]?
        else none := by
  obtain ⟨handle, offset⟩ := cell
  intro a mapped inside
  split_ifs with hit
  · obtain ⟨rfl, above, below⟩ := hit
    dsimp only at above below ⊢
    rw [List.getElem?_eq_getElem (show offset - a.blockOffset < bytes.length by omega)]
    refine lastWritten_eq_some (List.getElem?_eq_getElem _) ?_ fun j after short leads => ?_
    · rw [cell?_eq_some, handleAt_add (by omega), Address.blockOffset_add (by omega)]
      exact ⟨mapped, by dsimp only; omega⟩
    · have same := (cell?_eq_some.mp leads).2
      rw [Address.blockOffset_add (by omega)] at same
      dsimp only at same
      omega
  · refine lastWritten_eq_none.mpr fun i short leads => hit ?_
    obtain ⟨there, same⟩ := cell?_eq_some.mp leads
    rw [handleAt_add (by omega), mapped] at there
    rw [Address.blockOffset_add (by omega)] at same
    dsimp only at there same ⊢
    exact ⟨(Option.some.inj there).symm, by omega, by omega⟩

end Directory

/-! ### Reads -/

namespace Arena

variable {L : Type} [CodeUnit L]

/-- The byte in a cell, where its block is that long. -/
def peek (arena : Arena L) (cell : Cell) : Option UInt8 :=
  (arena.get? cell.handle).bind (·.contents[cell.offset]?)

/-- The byte that a read at `a` returns. -/
def byteAt (arena : Arena L) (d : Directory) (a : Address) : UInt8 :=
  ((d.cell? a).bind arena.peek).getD openBus

/-- Where no block has a byte, reads return open bus. -/
theorem byteAt_of_short {arena : Arena L} {d : Directory} {a : Address}
    (short : ∀ h block, d.handleAt a = some h → arena.get? h = some block → block.size ≤ a.blockOffset) :
    arena.byteAt d a = openBus := by
  have nothing : (d.cell? a).bind arena.peek = none := by
    refine Option.bind_eq_none_iff.mpr fun cell leads => Option.bind_eq_none_iff.mpr fun block found => ?_
    obtain ⟨mapped, same⟩ := Directory.cell?_eq_some.mp leads
    refine Array.getElem?_eq_none ?_
    rw [Block.size_contents, ← same]
    exact short cell.handle block mapped found
  rw [byteAt, nothing]
  rfl

theorem byteAt_of_get? {arena : Arena L} {d : Directory} {a : Address} {h : Handle} {block : Block L}
    (mapped : d.handleAt a = some h) (found : arena.get? h = some block) :
    arena.byteAt d a = block.contents[a.blockOffset]?.getD openBus := by
  have leads : d.cell? a = some ⟨h, a.blockOffset⟩ := Directory.cell?_eq_some.mpr ⟨mapped, rfl⟩
  rw [byteAt, leads, Option.bind_some, peek, found, Option.bind_some]

/-- The bytes at `a` and the addresses after it. -/
def bytesFrom (arena : Arena L) (d : Directory) : Address → Nat → List UInt8
  | _, 0 => []
  | a, n + 1 => arena.byteAt d a :: arena.bytesFrom d (a + 1) n

@[simp] theorem length_bytesFrom (arena : Arena L) (d : Directory) (n : Nat) :
    ∀ a : Address, (arena.bytesFrom d a n).length = n := by
  induction n with
  | zero => simp [bytesFrom]
  | succ n ih => simp [bytesFrom, ih]

theorem getElem?_bytesFrom (arena : Arena L) (d : Directory) (n : Nat) :
    ∀ (a : Address) (i : Nat),
      (arena.bytesFrom d a n)[i]? = if i < n then some (arena.byteAt d (a + UInt32.ofNat i)) else none := by
  induction n with
  | zero => simp [bytesFrom]
  | succ n ih =>
    intro a i
    cases i with
    | zero => simp [bytesFrom]
    | succ i =>
      rw [bytesFrom, List.getElem?_cons_succ, ih, Address.add_ofNat_succ]
      simp only [Nat.succ_lt_succ_iff]

theorem bytesFrom_add (arena : Arena L) (d : Directory) (later n : Nat) :
    ∀ a : Address, arena.bytesFrom d a (n + later) =
      arena.bytesFrom d a n ++ arena.bytesFrom d (a + UInt32.ofNat n) later := by
  induction n with
  | zero => simp [bytesFrom]
  | succ n ih =>
    intro a
    rw [Nat.succ_add, bytesFrom, ih, bytesFrom, Address.add_ofNat_succ, List.cons_append]

/-- The same bytes in every slot. -/
abbrev SameContents (before after : Arena L) : Prop := Related (fun x y => x.contents = y.contents) before after

theorem SameContents.peek {before after : Arena L} (same : SameContents before after) (cell : Cell) :
    after.peek cell = before.peek cell := by
  rw [Arena.peek, Arena.peek]
  cases found : before.get? cell.handle with
  | none => rw [same.none found]
  | some block =>
    obtain ⟨block', found', alike⟩ := same.some found
    rw [found', Option.bind_some, Option.bind_some, alike]

theorem SameContents.bytesFrom {before after : Arena L} (same : SameContents before after) (d : Directory)
    (n : Nat) : ∀ a : Address, after.bytesFrom d a n = before.bytesFrom d a n := by
  have alike : after.peek = before.peek := funext same.peek
  induction n with
  | zero => exact fun _ => rfl
  | succ n ih =>
    intro a
    rw [Arena.bytesFrom, ih, Arena.bytesFrom, byteAt, alike, byteAt]

theorem keptByReads_contents : KeptByReads (L := L) fun x y => x.contents = y.contents where
  refl _ := rfl
  trans _ _ _ := Eq.trans
  touch block := block.contents_touch.symm

/-- One block that holds all the bytes returns what lies at their addresses. -/
theorem readWithin_bytes {arena after : Arena L} {d : Directory} {a : Address} {count : Nat}
    {bytes : List UInt8} (accepted : arena.readWithin d a count = some (bytes, after))
    (inside : a.blockOffset + count ≤ blockSize) : bytes = arena.bytesFrom d a count := by
  obtain ⟨h, block, mapped, found, fits, rfl, _⟩ := readWithin_eq_some.mp accepted
  refine List.ext_getElem? fun i => ?_
  rw [Contents.getElem?_slice, getElem?_bytesFrom]
  by_cases short : i < count
  · have held : a.blockOffset + i < block.contents.size := by
      rw [Block.size_contents]
      omega
    have leads : d.cell? (a + UInt32.ofNat i) = some ⟨h, a.blockOffset + i⟩ := by
      rw [Directory.cell?_eq_some, Directory.handleAt_add (by omega), Address.blockOffset_add (by omega)]
      exact ⟨mapped, rfl⟩
    rw [if_pos short, if_pos short, byteAt, leads, Option.bind_some, peek, found, Option.bind_some,
      Array.getElem?_eq_getElem held, Option.getD_some]
  · rw [if_neg short, if_neg short]

theorem loadByte_byte (arena : Arena L) (d : Directory) (a : Address) :
    (arena.loadByte d a).1 = arena.byteAt d a := by
  rw [loadByte]
  cases accepted : arena.readWithin d a 1 with
  | some answer =>
    obtain ⟨bytes, after⟩ := answer
    rw [readWithin_bytes accepted a.blockOffset_lt]
    rfl
  | none =>
    refine (byteAt_of_short fun h block mapped found => ?_).symm
    exact Nat.le_of_lt_succ (readWithin_eq_none accepted mapped found)

theorem gather_bytes (d : Directory) (count : Nat) :
    ∀ (arena : Arena L) (a : Address), (arena.gather d a count).1 = arena.bytesFrom d a count := by
  induction count with
  | zero => exact fun _ _ => rfl
  | succ count ih =>
    intro arena a
    have same : SameContents arena (arena.loadByte d a).2 := keptByReads_contents.loadByte arena d a
    rw [bytesFrom, ← loadByte_byte, ← same.bytesFrom, ← ih]
    rfl

theorem load_bytes (arena : Arena L) (d : Directory) {a : Address} {count : Nat}
    (inside : a.blockOffset + count ≤ blockSize) : (arena.load d a count).1 = arena.bytesFrom d a count := by
  rw [load]
  cases accepted : arena.readWithin d a count with
  | none => exact gather_bytes d count arena a
  | some answer => exact readWithin_bytes accepted inside

/-- A copy of any length returns the bytes at its addresses. -/
theorem copyOut_bytes (d : Directory) (a : Address) (count : Nat) (arena : Arena L) :
    (arena.copyOut d a count).1 = arena.bytesFrom d a count := by
  fun_induction Arena.copyOut d a count arena with
  | case1 => rfl
  | case2 a count arena more bytes between loaded rest after copied ih =>
    have same : SameContents arena (arena.load d a (min a.bytesToBlockEnd count)).2 :=
      keptByReads_contents.load arena d a _
    have inside : a.blockOffset + min a.bytesToBlockEnd count ≤ blockSize := by
      have bound := a.blockOffset_lt
      rw [Address.bytesToBlockEnd]
      omega
    have here := arena.load_bytes d inside
    rw [loaded] at same here
    rw [copied] at ih
    dsimp only at same here ih ⊢
    rw [here, ih, same.bytesFrom]
    by_cases long : a.bytesToBlockEnd ≤ count
    · rw [Nat.min_eq_left long, Address.nextBlock, ← bytesFrom_add, Nat.add_sub_cancel' long]
    · rw [Nat.min_eq_right (Nat.le_of_not_le long), Nat.sub_eq_zero_of_le (Nat.le_of_not_le long), bytesFrom,
        List.append_nil]

end Arena

end GuestMemory
