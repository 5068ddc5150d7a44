import GuestMemory.Proofs.Memory.Eviction

/-!
Reads against their bytes one at a time. A block that holds all bytes of a read returns them in one piece
and is touched once; byte by byte, every byte is looked up on its own and touches the block that it lies
in. The two return the same bytes and leave the same memory (`reads_eq_getBytes`), if no block runs past
its addresses: just the blocks that hold one of the bytes have got their storage.
-/
namespace GuestMemory

variable {L : Type} [CodeUnit L]

namespace Arena

/-! ### What reads touch -/

/-- One of the cells that are read lies in the block behind the handle. -/
def Holds (read : Cell → Prop) (h : Handle) (block : Block L) : Prop := ∃ offset < block.size, read ⟨h, offset⟩

/-- What a read of the given cells does to an arena: the blocks that hold one of them are touched, and all
    others stay as they are. -/
structure Touches (read : Cell → Prop) (before after : Arena L) : Prop where
  size : after.size = before.size
  touched : ∀ h block, before.get? h = some block → Holds read h block → after.get? h = some block.touch
  kept : ∀ h block, before.get? h = some block → ¬ Holds read h block → after.get? h = some block

theorem touches_refl {read : Cell → Prop} {arena : Arena L}
    (nowhere : ∀ h block, arena.get? h = some block → ¬ Holds read h block) : Touches read arena arena where
  size := rfl
  touched h block found holds := absurd holds (nowhere h block found)
  kept _ _ found _ := found

theorem Touches.congr {read read' : Cell → Prop} {before after : Arena L} (touches : Touches read before after)
    (same : ∀ cell, read cell ↔ read' cell) : Touches read' before after := by
  rwa [← funext fun cell => propext (same cell)]

theorem holds_touch {read : Cell → Prop} {h : Handle} {block : Block L} :
    Holds read h block.touch ↔ Holds read h block := by
  simp [Holds]

theorem holds_or {read later : Cell → Prop} {h : Handle} {block : Block L} :
    Holds (fun cell => read cell ∨ later cell) h block ↔ Holds read h block ∨ Holds later h block := by
  constructor
  · rintro ⟨offset, inside, here | there⟩
    · exact .inl ⟨offset, inside, here⟩
    · exact .inr ⟨offset, inside, there⟩
  · rintro (⟨offset, inside, here⟩ | ⟨offset, inside, there⟩)
    · exact ⟨offset, inside, .inl here⟩
    · exact ⟨offset, inside, .inr there⟩

/-- A block that was touched by the first read is not touched further by the second. -/
theorem Touches.append {read later : Cell → Prop} {first second third : Arena L}
    (here : Touches read first second) (there : Touches later second third) :
    Touches (fun cell => read cell ∨ later cell) first third where
  size := there.size.trans here.size
  touched h block found holds := by
    by_cases early : Holds read h block
    · have between := here.touched h block found early
      by_cases again : Holds later h block
      · have last := there.touched h block.touch between (holds_touch.mpr again)
        simpa using last
      · exact there.kept h block.touch between (mt holds_touch.mp again)
    · have late : Holds later h block := (holds_or.mp holds).resolve_left early
      exact there.touched h block (here.kept h block found early) late
  kept h block found apart := by
    rw [holds_or, not_or] at apart
    exact there.kept h block (here.kept h block found apart.1) apart.2

theorem loadByte_touches (arena : Arena L) (d : Directory) (a : Address) :
    Touches (d.LeadsTo a 1) arena (arena.loadByte d a).2 := by
  rw [loadByte]
  cases accepted : arena.readWithin d a 1 with
  | none =>
    refine touches_refl fun h block found => ?_
    rintro ⟨offset, inside, leads⟩
    obtain ⟨mapped, same⟩ := Directory.cell?_eq_some.mp (Directory.leadsTo_one.mp leads)
    have short := readWithin_eq_none accepted mapped found
    dsimp only at same
    omega
  | some answer =>
    obtain ⟨bytes, after⟩ := answer
    obtain ⟨h, block, mapped, found, fits, _, rfl⟩ := readWithin_eq_some.mp accepted
    refine ⟨Array.size_setIfInBounds, fun other block' found' holds => ?_, fun other block' found' apart => ?_⟩
    · obtain ⟨offset, _, leads⟩ := holds
      have there := (Directory.cell?_eq_some.mp (Directory.leadsTo_one.mp leads)).1
      obtain rfl : h = other := Option.some.inj (mapped.symm.trans there)
      obtain rfl : block = block' := Option.some.inj (found.symm.trans found')
      simp [found]
    · have different : other ≠ h := by
        rintro rfl
        obtain rfl : block = block' := Option.some.inj (found.symm.trans found')
        exact apart ⟨a.blockOffset, fits, Directory.leadsTo_one.mpr (Directory.cell?_eq_some.mpr ⟨mapped, rfl⟩)⟩
      simp [different, found']

theorem gather_touches (d : Directory) (count : Nat) :
    ∀ (arena : Arena L) (a : Address), Touches (d.LeadsTo a count) arena (arena.gather d a count).2 := by
  induction count with
  | zero =>
    intro arena a
    refine touches_refl fun h block _ => ?_
    rintro ⟨_, _, i, short, _⟩
    exact absurd short (Nat.not_lt_zero i)
  | succ count ih =>
    intro arena a
    refine ((arena.loadByte_touches d a).append (ih _ (a + 1))).congr fun cell => ?_
    rw [Nat.add_comm, Directory.leadsTo_add]
    rfl

/-! ### One piece against many -/

theorem gather_succ (d : Directory) (a : Address) (n : Nat) (arena : Arena L) :
    arena.gather d a (n + 1) =
      ((arena.loadByte d a).1 :: ((arena.loadByte d a).2.gather d (a + 1) n).1,
        ((arena.loadByte d a).2.gather d (a + 1) n).2) := rfl

theorem gather_add (d : Directory) (later n : Nat) :
    ∀ (a : Address) (arena : Arena L), arena.gather d a (n + later) =
      ((arena.gather d a n).1 ++ ((arena.gather d a n).2.gather d (a + UInt32.ofNat n) later).1,
        ((arena.gather d a n).2.gather d (a + UInt32.ofNat n) later).2) := by
  induction n with
  | zero => simp [gather]
  | succ n ih =>
    intro a arena
    rw [Nat.succ_add, gather_succ, ih, gather_succ, Address.add_ofNat_succ]
    simp

/-- Reading the bytes of a block one after the other touches it as one read of them does. -/
theorem gather_within {d : Directory} {h : Handle} (n : Nat) :
    ∀ {arena : Arena L} {a : Address} {block : Block L}, d.handleAt a = some h → arena.get? h = some block →
      a.blockOffset + (n + 1) ≤ block.size → a.blockOffset + (n + 1) ≤ blockSize →
      (arena.gather d a (n + 1)).2 = arena.put h block.touch := by
  induction n with
  | zero =>
    intro arena a block mapped found fits _
    have taken : arena.readWithin d a 1 = some (_, _) :=
      readWithin_eq_some.mpr ⟨h, block, mapped, found, fits, rfl, rfl⟩
    rw [gather_succ, loadByte, taken, gather]
  | succ n ih =>
    intro arena a block mapped found fits inside
    have taken : arena.readWithin d a 1 = some (_, _) :=
      readWithin_eq_some.mpr ⟨h, block, mapped, found, by omega, rfl, rfl⟩
    have found' : (arena.put h block.touch).get? h = some block.touch := by simp [found]
    have next : a.blockOffset + 1 < blockSize := by omega
    have mapped' : d.handleAt (a + 1) = some h := (Directory.handleAt_add next d).trans mapped
    have place : (a + 1).blockOffset = a.blockOffset + 1 := Address.blockOffset_add next
    rw [gather_succ, loadByte, taken, ih mapped' found' (by rw [place, Block.size_touch]; omega) (by omega)]
    simp

/-- A read of at least one byte that a single block serves is the read of its bytes, if it does not run
    past the addresses of that block. -/
theorem readWithin_eq_gather {arena : Arena L} {d : Directory} {a : Address} {count : Nat}
    {answer : List UInt8 × Arena L} (nonempty : 0 < count) (accepted : arena.readWithin d a count = some answer)
    (inside : a.blockOffset + count ≤ blockSize) : answer = arena.gather d a count := by
  obtain ⟨bytes, after⟩ := answer
  have same := readWithin_bytes accepted inside
  obtain ⟨h, block, mapped, found, fits, _, rfl⟩ := readWithin_eq_some.mp accepted
  obtain ⟨n, rfl⟩ : ∃ n, count = n + 1 := ⟨count - 1, by omega⟩
  rw [same, ← gather_bytes, ← gather_within n mapped found fits inside]

theorem load_eq_gather {arena : Arena L} {d : Directory} {a : Address} {count : Nat} (nonempty : 0 < count)
    (inside : ∀ answer, arena.readWithin d a count = some answer → a.blockOffset + count ≤ blockSize) :
    arena.load d a count = arena.gather d a count := by
  rw [load]
  cases accepted : arena.readWithin d a count with
  | none => rfl
  | some answer => exact readWithin_eq_gather nonempty accepted (inside answer accepted)

theorem copyOut_eq_gather (d : Directory) (a : Address) (count : Nat) (arena : Arena L) :
    arena.copyOut d a count = arena.gather d a count := by
  fun_induction Arena.copyOut d a count arena with
  | case1 => rfl
  | case2 a count arena more bytes between loaded rest after copied ih =>
    have room := a.bytesToBlockEnd_pos
    have first : arena.load d a (min a.bytesToBlockEnd count) = arena.gather d a (min a.bytesToBlockEnd count) := by
      refine load_eq_gather (by omega) fun _ _ => ?_
      have bound := a.blockOffset_lt
      rw [Address.bytesToBlockEnd]
      omega
    rw [loaded] at first
    rw [copied] at ih
    by_cases long : a.bytesToBlockEnd ≤ count
    · rw [Nat.min_eq_left long] at first
      have whole := gather_add d (count - a.bytesToBlockEnd) a.bytesToBlockEnd a arena
      rw [Nat.add_sub_cancel' long, ← first] at whole
      rw [whole, ← Address.nextBlock, ← ih]
    · rw [Nat.min_eq_right (Nat.le_of_not_le long)] at first
      rw [Nat.sub_eq_zero_of_le (Nat.le_of_not_le long), gather] at ih
      cases ih
      rw [← first, List.append_nil]

end Arena

/-! ### Views -/

namespace Memory

/-- Reads bytes one at a time, in ascending order of address. -/
def getBytes (m : Memory L) (v : View) (a : Address) : Nat → List UInt8 × Memory L
  | 0 => ([], m)
  | n + 1 =>
    let (b, after) := m.get v .byte a
    let (rest, last) := after.getBytes v (a + 1) n
    (.ofBitVec b :: rest, last)

theorem get_byte_eq (m : Memory L) (v : View) (a : Address) :
    m.get v .byte a = ((m.arena.loadByte (m.directory v) a).1.toBitVec,
      { m with arena := (m.arena.loadByte (m.directory v) a).2 }) := by
  have one : m.arena.load (m.directory v) a Width.byte.size = m.arena.gather (m.directory v) a 1 :=
    Arena.load_eq_gather Nat.one_pos fun _ _ => a.blockOffset_lt
  have decoded : ∀ b : UInt8, Width.byte.decode [b] = b.toBitVec := by
    intro b
    exact BitVec.ofNat_toNat 8 b.toBitVec
  simp only [get, one, Arena.gather, decoded]
  rfl

theorem getBytes_eq (v : View) (count : Nat) :
    ∀ (m : Memory L) (a : Address), m.getBytes v a count = ((m.arena.gather (m.directory v) a count).1,
      { m with arena := (m.arena.gather (m.directory v) a count).2 }) := by
  induction count with
  | zero => exact fun _ _ => rfl
  | succ count ih =>
    intro m a
    simp only [getBytes, get_byte_eq, ih, directory_with_arena]
    rfl

/-- What a read of `count` bytes from `a` on returns, and what it leaves of the memory. -/
structure Fetches (m : Memory L) (v : View) (a : Address) (count : Nat) (bytes : List UInt8) (after : Memory L) :
    Prop where
  length : bytes.length = count
  byte : ∀ i < count, bytes[i]? = some (m.getByte v (a + UInt32.ofNat i))
  unbacked : ∀ i < count, ¬ m.Backed v (a + UInt32.ofNat i) → bytes[i]? = some openBus
  directory : ∀ v', after.directory v' = m.directory v'
  arena_size : after.arena.size = m.arena.size
  /-- Nothing changes in a slot but that its block gets storage, if one of the bytes lies in it. -/
  slot : ∀ h block, m.arena.get? h = some block → ∃ block', after.arena.get? h = some block' ∧
    block'.kindName = block.kindName ∧ block'.contents = block.contents ∧ block'.isWritable = block.isWritable ∧
    block'.code = block.code ∧ (block'.isAllocated = true ↔ block.isAllocated = true ∨
      ∃ i < count, (m.directory v).handleAt (a + UInt32.ofNat i) = some h ∧
        (a + UInt32.ofNat i).blockOffset < block.size)

theorem holds_leadsTo {d : Directory} {a : Address} {count : Nat} {h : Handle} {block : Block L} :
    Arena.Holds (d.LeadsTo a count) h block ↔ ∃ i < count, d.handleAt (a + UInt32.ofNat i) = some h ∧
      (a + UInt32.ofNat i).blockOffset < block.size := by
  constructor
  · rintro ⟨offset, inside, i, short, leads⟩
    obtain ⟨mapped, same⟩ := Directory.cell?_eq_some.mp leads
    exact ⟨i, short, mapped, same ▸ inside⟩
  · rintro ⟨i, short, mapped, inside⟩
    exact ⟨_, inside, i, short, Directory.cell?_eq_some.mpr ⟨mapped, rfl⟩⟩

theorem getBytes_fetches (m : Memory L) (v : View) (a : Address) (count : Nat) :
    m.Fetches v a count (m.getBytes v a count).1 (m.getBytes v a count).2 := by
  have touches := Arena.gather_touches (m.directory v) count m.arena a
  have byte : ∀ i < count,
      (m.arena.gather (m.directory v) a count).1[i]? = some (m.getByte v (a + UInt32.ofNat i)) := by
    intro i short
    rw [Arena.gather_bytes, Arena.getElem?_bytesFrom, if_pos short, getByte_eq]
  have length : (m.arena.gather (m.directory v) a count).1.length = count := by
    rw [Arena.gather_bytes, Arena.length_bytesFrom]
  rw [getBytes_eq]
  refine ⟨length, byte, ?_, fun v' => directory_with_arena m _ v', touches.size, ?_⟩
  · intro i short bare
    rw [← getByte_of_not_backed bare]
    exact byte i short
  · intro h block found
    rw [← holds_leadsTo]
    by_cases holds : Arena.Holds ((m.directory v).LeadsTo a count) h block
    · exact ⟨block.touch, touches.touched h block found holds, by simp [holds]⟩
    · exact ⟨block, touches.kept h block found holds, by simp [holds]⟩

/-- A read of any width or length returns what its bytes return when they are read one at a time, and
    leaves the memory that they leave, whatever the addresses lead to. -/
theorem reads_eq_getBytes (m : Memory L)
    (fitting : ∀ h block, m.arena.get? h = some block → block.size ≤ blockSize) (v : View) (a : Address) :
    (∀ count, m.copyOut v a count = m.getBytes v a count) ∧
    (∀ w : Width, m.get v w a = (w.decode (m.getBytes v a w.size).1, (m.getBytes v a w.size).2)) ∧
    (∀ count, m.Fetches v a count (m.getBytes v a count).1 (m.getBytes v a count).2) := by
  refine ⟨fun count => ?_, fun w => ?_, m.getBytes_fetches v a⟩
  · rw [getBytes_eq, copyOut, Arena.copyOut_eq_gather]
  · have whole : m.arena.load (m.directory v) a w.size = m.arena.gather (m.directory v) a w.size := by
      refine Arena.load_eq_gather (by cases w <;> decide) fun answer accepted => ?_
      obtain ⟨h, block, _, found, fits, _⟩ := Arena.readWithin_eq_some.mp accepted
      exact Nat.le_trans fits (fitting h block found)
    rw [getBytes_eq, get, whole]

section
open Fusion.Toy

/-- Untouched blocks: a full one behind the last addresses, one of two bytes behind the first, and another
    full one after that. -/
def brink : Memory Stub where
  arena := ⟨#[.fresh, .lazy (.withSize 2), .fresh]⟩
  physical := ((Directory.empty.place 0 ⟨1⟩).place 1 ⟨2⟩).place 0xFFFFF ⟨0⟩
  linear := .empty

/-- Eight bytes round the end of the address space, in one read or one at a time: the last two are open
    bus. Both blocks that hold bytes get their storage, and the third does not. -/
theorem brink_fetches :
    (∀ h block, brink.arena.get? h = some block → block.size ≤ blockSize) ∧
      (brink.get .physical .quadword 0xFFFFFFFC).1 = 0xFFFF000000000000 ∧
      (brink.getBytes .physical 0xFFFFFFFC 8).1 = [0, 0, 0, 0, 0, 0, 0xFF, 0xFF] ∧
      (brink.get .physical .quadword 0xFFFFFFFC).2 = (brink.getBytes .physical 0xFFFFFFFC 8).2 ∧
      (brink.getBytes .physical 0xFFFFFFFC 8).2.arena.slots.map Block.isAllocated = #[true, true, false] := by
  have fitting : ∀ h block, brink.arena.get? h = some block → block.size ≤ blockSize := by
    intro h block found
    have small : ∀ block ∈ brink.arena.slots, block.size ≤ blockSize := by decide
    exact small block (Array.mem_of_getElem? found)
  have bytewise : brink.get .physical .quadword 0xFFFFFFFC =
      (Width.quadword.decode (brink.getBytes .physical 0xFFFFFFFC 8).1,
        (brink.getBytes .physical 0xFFFFFFFC 8).2) :=
    (reads_eq_getBytes brink fitting .physical 0xFFFFFFFC).2.1 .quadword
  have bytes : (brink.getBytes .physical 0xFFFFFFFC 8).1 = [0, 0, 0, 0, 0, 0, 0xFF, 0xFF] := by decide +kernel
  refine ⟨fitting, ?_, bytes, by rw [bytewise], by decide +kernel⟩
  rw [bytewise, bytes]
  decide

end

end Memory

end GuestMemory
