import GuestMemory.Memory.Basic
import GuestMemory.Proofs.Fusion.Toy
import GuestMemory.Proofs.Memory.Writes
import Mathlib.Tactic.SplitIfs

/-!
Guest memory as one flat array. A write changes the cells behind its addresses, the later bytes over
the earlier ones, and no other (`Written`), whether one block took it in one piece or it went byte by
byte; cells of firmware, of no block, or past the end of one keep what they had. Both views read from
the same cells, so a write through either is seen through both (`writes_overwrite`).
-/
namespace GuestMemory

variable {L : Type} [CodeUnit L]

namespace Arena

/-- Cells that a write can change: the block is there, can be written, and is long enough. -/
def Accepts (arena : Arena L) (cell : Cell) : Prop :=
  ∃ block, arena.get? cell.handle = some block ∧ block.isWritable = true ∧ cell.offset < block.size

/-- Blocks of the same size in every slot, and the same of them writable. -/
abbrev SameShape (before after : Arena L) : Prop :=
  Related (fun x y => x.isWritable = y.isWritable ∧ x.size = y.size) before after

theorem SameShape.accepts {before after : Arena L} (same : SameShape before after) (cell : Cell) :
    after.Accepts cell ↔ before.Accepts cell := by
  rw [Accepts, Accepts]
  cases found : before.get? cell.handle with
  | none => rw [same.none found]
  | some block =>
    obtain ⟨block', found', writable, size⟩ := same.some found
    rw [found']
    simp [writable, size]

/-- A cell of firmware, or past the end of its block, holds after a patch what it held before. -/
theorem getElem?_contents_patch_of_refused {block : Block L} {i : Nat}
    (refused : ¬ (block.isWritable = true ∧ i < block.size)) (offset : Nat) (bytes : List UInt8) :
    (block.patch offset bytes).contents[i]? = block.contents[i]? := by
  rw [Block.contents_patch]
  split
  · rename_i writable
    have outside : block.size ≤ i := Nat.le_of_not_lt fun inside => refused ⟨writable, inside⟩
    rw [Array.getElem?_eq_none (by simpa using outside), Array.getElem?_eq_none (by simpa using outside)]
  · rfl

theorem keptByAccesses_shape :
    KeptByAccesses (L := L) fun x y => x.isWritable = y.isWritable ∧ x.size = y.size where
  refl _ := ⟨rfl, rfl⟩
  trans _ _ _ first second := ⟨first.1.trans second.1, first.2.trans second.2⟩
  touch block := ⟨block.isWritable_touch.symm, block.size_touch.symm⟩
  patch block _ _ _ := ⟨(block.isWritable_patch _ _).symm, (block.size_patch _ _).symm⟩

/-- `after` is `before` with `bytes` written from `a` on. -/
structure Written (d : Directory) (a : Address) (bytes : List UInt8) (before after : Arena L) : Prop where
  shape : SameShape before after
  accepted : ∀ cell, before.Accepts cell →
    after.peek cell = (d.lastWritten a bytes cell).or (before.peek cell)
  refused : ∀ cell, ¬ before.Accepts cell → after.peek cell = before.peek cell

variable {d : Directory} {a : Address}

theorem written_nil (d : Directory) (a : Address) (arena : Arena L) : Written d a [] arena arena where
  shape := .refl keptByAccesses_shape.refl arena
  accepted _ _ := rfl
  refused _ _ := rfl

theorem Written.append {bytes later : List UInt8} {first second third : Arena L}
    (here : Written d a bytes first second)
    (there : Written d (a + UInt32.ofNat bytes.length) later second third) :
    Written d a (bytes ++ later) first third where
  shape := here.shape.trans keptByAccesses_shape.trans there.shape
  accepted cell accepts := by
    rw [there.accepted cell ((here.shape.accepts cell).mpr accepts), here.accepted cell accepts,
      Directory.lastWritten_append, Option.or_assoc]
  refused cell refused := by
    rw [there.refused cell (mt (here.shape.accepts cell).mp refused), here.refused cell refused]

theorem writeWithin_written {arena after : Arena L} {bytes : List UInt8}
    (accepted : arena.writeWithin d a bytes = some after)
    (inside : a.blockOffset + bytes.length ≤ blockSize) : Written d a bytes arena after := by
  have shape : SameShape arena after := keptByAccesses_shape.writeWithin accepted
  obtain ⟨h, block, mapped, found, fits, rfl⟩ := writeWithin_eq_some.mp accepted
  refine ⟨shape, ?_, ?_⟩
  · rintro ⟨handle, offset⟩ ⟨block', found', writable, held⟩
    rw [Directory.lastWritten_within _ _ mapped inside]
    simp only [peek, get?_put] at found' held ⊢
    by_cases same : handle = h
    · subst same
      obtain rfl : block' = block := Option.some.inj (found'.symm.trans found)
      simp only [if_true, true_and, found, Option.map_some, Option.bind_some, Block.contents_patch, writable]
      rw [Contents.getElem?_splice _ _ _ _ (by simpa using held)]
      split_ifs with hit
      · rw [List.getElem?_eq_getElem (show offset - a.blockOffset < bytes.length by omega)]
        rfl
      · rfl
    · simp [same]
  · rintro ⟨handle, offset⟩ refused
    simp only [peek, get?_put]
    by_cases same : handle = h
    · subst same
      have held : ¬ (block.isWritable = true ∧ offset < block.size) := fun held =>
        refused ⟨block, found, held⟩
      rw [if_pos rfl, found, Option.map_some, Option.bind_some, Option.bind_some,
        getElem?_contents_patch_of_refused held]
    · rw [if_neg same]

/-- A byte that no block takes goes to a cell that does not accept it. -/
theorem not_accepts_of_dropped {arena : Arena L} {b : UInt8} (rejected : arena.writeWithin d a [b] = none)
    {cell : Cell} (leads : d.cell? a = some cell) : ¬ arena.Accepts cell := by
  rintro ⟨block, found, _, held⟩
  obtain ⟨mapped, same⟩ := Directory.cell?_eq_some.mp leads
  have tooShort := writeWithin_eq_none rejected mapped found
  rw [List.length_singleton] at tooShort
  omega

theorem writeRule_written (d : Directory) : WriteRule (L := L) d fun a bytes before after =>
    Written d a bytes before after where
  nil := written_nil d
  append here there := here.append there
  accepted _ inside accepted := writeWithin_written accepted inside
  dropped {a b arena} rejected := by
    refine ⟨.refl keptByAccesses_shape.refl arena, fun cell accepts => ?_, fun _ _ => rfl⟩
    have elsewhere : d.cell? a ≠ some cell := fun leads => not_accepts_of_dropped rejected leads accepts
    simp [Directory.lastWritten, elsewhere]

theorem scatter_written (d : Directory) (bytes : List UInt8) :
    ∀ (arena : Arena L) (a : Address), Written d a bytes arena (arena.scatter d a bytes) :=
  (writeRule_written d).scatter bytes

/-- A write that a single block takes must not run past the addresses of that block. -/
theorem store_written {arena : Arena L} {d : Directory} {a : Address} {bytes : List UInt8}
    (inside : ∀ after, arena.writeWithin d a bytes = some after → a.blockOffset + bytes.length ≤ blockSize) :
    Written d a bytes arena (arena.store d a bytes) := by
  rw [store]
  cases accepted : arena.writeWithin d a bytes with
  | none => exact scatter_written d bytes arena a
  | some after => exact writeWithin_written accepted (inside after accepted)

theorem copyIn_written (d : Directory) (a : Address) (bytes : List UInt8) (arena : Arena L) :
    Written d a bytes arena (arena.copyIn d a bytes) :=
  (writeRule_written d).copyIn a bytes arena

end Arena

/-! ### Views -/

namespace Memory

/-- The byte that a one-byte read returns. -/
def getByte (m : Memory L) (v : View) (a : Address) : UInt8 := .ofBitVec (m.get v .byte a).1

theorem getByte_eq (m : Memory L) (v : View) (a : Address) :
    m.getByte v a = m.arena.byteAt (m.directory v) a := by
  have one : (m.arena.load (m.directory v) a 1).1 = m.arena.bytesFrom (m.directory v) a 1 :=
    m.arena.load_bytes (m.directory v) a.blockOffset_lt
  show UInt8.ofBitVec (Width.byte.decode (m.arena.load (m.directory v) a 1).1) = _
  rw [one, Arena.bytesFrom, Arena.bytesFrom, Width.decode, ofLittleEndian, ofLittleEndian]
  apply UInt8.toNat_inj.mp
  have bound := (m.arena.byteAt (m.directory v) a).toNat_lt
  show (BitVec.ofNat 8 _).toNat = _
  rw [BitVec.toNat_ofNat]
  omega

/-- Two addresses, each through its view, behind which lies the same byte of the same block. -/
def SameByte (m : Memory L) (v : View) (a : Address) (v' : View) (b : Address) : Prop :=
  ∃ h, (m.directory v).handleAt a = some h ∧ (m.directory v').handleAt b = some h ∧
    a.blockOffset = b.blockOffset

/-- Addresses behind which there is a byte. -/
def Backed (m : Memory L) (v : View) (a : Address) : Prop :=
  ∃ h block, (m.directory v).handleAt a = some h ∧ m.arena.get? h = some block ∧ a.blockOffset < block.size

/-- Addresses behind which there is a byte that can be written. -/
def Writable (m : Memory L) (v : View) (a : Address) : Prop :=
  ∃ h block, (m.directory v).handleAt a = some h ∧ m.arena.get? h = some block ∧
    block.isWritable = true ∧ a.blockOffset < block.size

/-- `after` is `m` with `bytes` written from `a` on through the view `v`, as either view sees it. -/
structure Overwrites (m : Memory L) (v : View) (a : Address) (bytes : List UInt8) (after : Memory L) : Prop where
  written : ∀ (v' : View) (b : Address) (i : Nat) (x : UInt8), bytes[i]? = some x →
    m.SameByte v (a + UInt32.ofNat i) v' b →
    (∀ j, i < j → j < bytes.length → ¬ m.SameByte v (a + UInt32.ofNat j) v' b) →
    m.Writable v' b → after.getByte v' b = x
  kept : ∀ (v' : View) (b : Address),
    (∀ i < bytes.length, ¬ m.SameByte v (a + UInt32.ofNat i) v' b) ∨ ¬ m.Writable v' b →
    after.getByte v' b = m.getByte v' b
  unbacked : ∀ (v' : View) (b : Address), ¬ m.Backed v' b → after.getByte v' b = openBus

section
variable {m : Memory L} {v v' : View} {a b : Address} {cell : Cell}

theorem sameByte_iff (leads : (m.directory v').cell? b = some cell) :
    m.SameByte v a v' b ↔ (m.directory v).cell? a = some cell := by
  obtain ⟨mapped, offset⟩ := Directory.cell?_eq_some.mp leads
  rw [SameByte, mapped, offset, Directory.cell?_eq_some]
  constructor
  · rintro ⟨h, mapped, same, offset⟩
    cases same
    exact ⟨mapped, offset⟩
  · rintro ⟨mapped, offset⟩
    exact ⟨cell.handle, mapped, rfl, offset⟩

theorem writable_iff (leads : (m.directory v').cell? b = some cell) :
    m.Writable v' b ↔ m.arena.Accepts cell := by
  obtain ⟨mapped, offset⟩ := Directory.cell?_eq_some.mp leads
  rw [Writable, mapped, offset, Arena.Accepts]
  constructor
  · rintro ⟨h, block, same, accepts⟩
    cases same
    exact ⟨block, accepts⟩
  · rintro ⟨block, accepts⟩
    exact ⟨cell.handle, block, rfl, accepts⟩

theorem Writable.cell? (writable : m.Writable v' b) :
    ∃ cell, (m.directory v').cell? b = some cell ∧ m.arena.Accepts cell := by
  obtain ⟨h, block, mapped, accepts⟩ := writable
  exact ⟨⟨h, b.blockOffset⟩, Directory.cell?_eq_some.mpr ⟨mapped, rfl⟩, block, accepts⟩

theorem getByte_of_not_backed (bare : ¬ m.Backed v' b) : m.getByte v' b = openBus := by
  rw [getByte_eq]
  refine Arena.byteAt_of_short fun h block mapped found => Nat.le_of_not_lt fun held => ?_
  exact bare ⟨h, block, mapped, found, held⟩

/-- What a write does to the cells decides what the views see of it. -/
theorem overwrites_of_written {bytes : List UInt8} {arena : Arena L}
    (wrote : Arena.Written (m.directory v) a bytes m.arena arena) : m.Overwrites v a bytes { m with arena } := by
  have view : ∀ v' b, getByte { m with arena } v' b = arena.byteAt (m.directory v') b := by
    intro v' b
    rw [getByte_eq, directory_with_arena]
  have kept : ∀ (v' : View) (b : Address),
      (∀ i < bytes.length, ¬ m.SameByte v (a + UInt32.ofNat i) v' b) ∨ ¬ m.Writable v' b →
      getByte { m with arena } v' b = m.getByte v' b := by
    intro v' b untouched
    rw [view, getByte_eq, Arena.byteAt, Arena.byteAt]
    cases leads : (m.directory v').cell? b with
    | none => rfl
    | some cell =>
      rw [Option.bind_some, Option.bind_some]
      rw [writable_iff leads] at untouched
      by_cases accepts : m.arena.Accepts cell
      · have nowhere := untouched.resolve_right (not_not_intro accepts)
        simp only [sameByte_iff leads] at nowhere
        rw [wrote.accepted cell accepts, Directory.lastWritten_eq_none.mpr nowhere, Option.none_or]
      · rw [wrote.refused cell accepts]
  refine ⟨?_, kept, ?_⟩
  · intro v' b i x found same greatest writable
    obtain ⟨cell, leads, accepts⟩ := writable.cell?
    simp only [sameByte_iff leads] at same greatest
    rw [view, Arena.byteAt, leads, Option.bind_some, wrote.accepted cell accepts,
      Directory.lastWritten_eq_some found same greatest]
    rfl
  · intro v' b bare
    have readOnly : ¬ m.Writable v' b := by
      rintro ⟨h, block, mapped, found, _, held⟩
      exact bare ⟨h, block, mapped, found, held⟩
    rw [kept v' b (.inr readOnly), getByte_of_not_backed bare]

end

/-- Consecutive addresses with a block of their own for each index, all of them writable and of full
    size. The addresses may wrap, but do not come round to where they began. -/
structure DistinctSpan (m : Memory L) (v : View) (a : Address) (length : Nat) : Prop where
  length_le : length ≤ addressSpaceBytes
  full : ∀ i < length, ∃ h block, (m.directory v).handleAt (a + UInt32.ofNat i) = some h ∧
    m.arena.get? h = some block ∧ block.isWritable = true ∧ block.size = blockSize
  distinct : ∀ i < length, ∀ j < length,
    (m.directory v).handleAt (a + UInt32.ofNat i) = (m.directory v).handleAt (a + UInt32.ofNat j) →
    (a + UInt32.ofNat i).blockIndex = (a + UInt32.ofNat j).blockIndex

theorem copyOut_copyIn {m : Memory L} {v : View} {a : Address} {bytes : List UInt8}
    (span : m.DistinctSpan v a bytes.length) :
    ((m.copyIn v a bytes).copyOut v a bytes.length).1 = bytes := by
  have overwrites : m.Overwrites v a bytes (m.copyIn v a bytes) :=
    overwrites_of_written (Arena.copyIn_written (m.directory v) a bytes m.arena)
  have copied : ((m.copyIn v a bytes).copyOut v a bytes.length).1 =
      (m.copyIn v a bytes).arena.bytesFrom ((m.copyIn v a bytes).directory v) a bytes.length :=
    Arena.copyOut_bytes _ a bytes.length _
  rw [copied]
  refine List.ext_getElem? fun i => ?_
  rw [Arena.getElem?_bytesFrom]
  split_ifs with short
  · rw [← getByte_eq, List.getElem?_eq_getElem short]
    obtain ⟨h, block, mapped, found, writable, size⟩ := span.full i short
    refine congrArg some (overwrites.written v _ i _ (List.getElem?_eq_getElem short) ⟨h, mapped, mapped, rfl⟩
      (fun j after within same => ?_) ⟨h, block, mapped, found, writable, size ▸ Address.blockOffset_lt _⟩)
    -- The same byte again would be the same address again, after less than one turn.
    obtain ⟨h', mapped', again, offset⟩ := same
    have index := span.distinct j within i short (mapped'.trans again.symm)
    have address : (a + UInt32.ofNat j).toNat = (a + UInt32.ofNat i).toNat := by
      rw [← Address.index_mul_add_offset, index, offset, Address.index_mul_add_offset]
    have turn := span.length_le
    rw [UInt32.toNat_add, UInt32.toNat_add, UInt32.toNat_ofNat', UInt32.toNat_ofNat'] at address
    simp only [addressSpaceBytes] at turn
    omega
  · rw [List.getElem?_eq_none (Nat.le_of_not_lt short)]

/-- Writes of any length and of every width change the bytes that they reach, as both views see them,
    and no others; what is written to a span of distinct blocks can be read back. -/
theorem writes_overwrite (m : Memory L)
    (fitting : ∀ h block, m.arena.get? h = some block → block.size ≤ blockSize) (v : View) (a : Address) :
    (∀ bytes, m.Overwrites v a bytes (m.copyIn v a bytes)) ∧
    (∀ (w : Width) (value : w.Value), m.Overwrites v a (w.encode value) (m.set v w a value)) ∧
    (∀ bytes, m.DistinctSpan v a bytes.length →
      ((m.copyIn v a bytes).copyOut v a bytes.length).1 = bytes) := by
  refine ⟨fun bytes => ?_, fun w value => ?_, fun bytes span => copyOut_copyIn span⟩
  · exact overwrites_of_written (Arena.copyIn_written (m.directory v) a bytes m.arena)
  · refine overwrites_of_written (Arena.store_written fun after accepted => ?_)
    obtain ⟨h, block, _, found, fits, _⟩ := Arena.writeWithin_eq_some.mp accepted
    exact Nat.le_trans fits (fitting h block found)

/-- One block at both ends of the physical addresses, and in the middle of the linear ones. -/
def ring : Memory Fusion.Toy.Stub where
  arena := (Arena.empty.insert .fresh).2
  physical := (Directory.empty.place 0 ⟨0⟩).place 0xFFFFF ⟨0⟩
  linear := Directory.empty.place 7 ⟨0⟩

/-- The last byte of a write that comes round to the first byte of the block stays there. -/
theorem ring_overwrites :
    (∀ h block, ring.arena.get? h = some block → block.size ≤ blockSize) ∧
      (ring.copyIn .physical 0xFFFFF000 (List.replicate blockSize 1 ++ [2])).getByte .linear 0x7000 = 2 := by
  have fitting : ∀ h block, ring.arena.get? h = some block → block.size ≤ blockSize := by
    intro h block found
    rw [ring, Arena.get?_insert] at found
    split_ifs at found with only
    · cases found
      exact Nat.min_le_right _ _
    · cases found
  have law := (writes_overwrite ring fitting .physical 0xFFFFF000).1 (List.replicate blockSize 1 ++ [2])
  refine ⟨fitting, ?_⟩
  refine law.written .linear 0x7000 blockSize 2 ?_ ⟨⟨0⟩, rfl, rfl, rfl⟩ ?_ ⟨⟨0⟩, .fresh, rfl, rfl, rfl, ?_⟩
  · simp
  · intro j after within
    rw [List.length_append, List.length_replicate, List.length_singleton] at within
    omega
  · decide

end Memory

end GuestMemory
