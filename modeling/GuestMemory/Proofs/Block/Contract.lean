import GuestMemory.Proofs.Block.Deferred

/-!
One contract for all stores of bytes. An access asks for a range of bytes. If the range does not fit, the access is
rejected with the range, and the store is what it was; if it does, a read returns the bytes of the range, and a write
replaces them and no others, or is dropped where nothing can be written (`ByteStore.Exact`). Blocks keep the contract
whatever they are, and so do the four kinds of stores that blocks are made of, since access to a block is access to the
store in it (`Block.Wraps.exact`).
-/
namespace GuestMemory

open Block (Access Reply)

/-! ### Bounds in words -/

/-- The bounds check in 64-bit words, where the end of a range may wrap around. -/
def checkBoundsInWords (offset width size : UInt64) : Except BlockError Unit :=
  let rejected := .error (.outOfBounds offset.toNat width.toNat size.toNat)
  if offset + width < offset then rejected
  else if offset + width ≤ size then .ok ()
  else rejected

/-- A range whose end wraps around is longer than any store. -/
theorem checkBoundsInWords_eq (offset width size : UInt64) :
    checkBoundsInWords offset width size = checkBounds offset.toNat width.toNat size.toNat := by
  have bounds := And.intro offset.toNat_lt (And.intro width.toNat_lt size.toNat_lt)
  rw [checkBoundsInWords, checkBounds]
  simp only [UInt64.lt_iff_toNat_lt, UInt64.le_iff_toNat_le, UInt64.toNat_add]
  by_cases fits : offset.toNat + width.toNat ≤ size.toNat
  · rw [if_neg (by omega), if_pos (by omega), if_pos fits]
  · rw [if_neg fits]
    split
    · rfl
    · rw [if_neg (by omega)]

/-! ### The contract -/

/-- What a store holds: its bytes, whether they can be written, and the code that was compiled from them. -/
structure Stored (L : Type) where
  bytes : List UInt8
  writable : Bool
  code : Table (CodeTree L)

/-- The range of bytes that an access asks for, by its offset and width. -/
def Block.Access.range? : Access → Option (Nat × Nat)
  | .get w offset => some (offset, w.size)
  | .set w offset _ => some (offset, w.size)
  | .copyOut offset count => some (offset, count)
  | .copyIn offset bytes => some (offset, bytes.length)
  | .size | .clear => none

variable {L : Type}

namespace Stored

/-- The bytes from `offset` on were replaced by as many new ones, if bytes can be written, and otherwise nothing was
    done. -/
structure Overwritten (before : Stored L) (offset : Nat) (new : List UInt8) (after : Stored L) : Prop where
  writable : after.writable = before.writable
  replaced : before.writable = true →
    after.bytes = before.bytes.take offset ++ new ++ before.bytes.drop (offset + new.length)
  dropped : before.writable = false → after = before

/-- The answer to an access to a range that fits, and what it leaves. -/
def Accepts (before : Stored L) : Access → Reply → Stored L → Prop
  | .get w offset, reply, after => after = before ∧ ∃ value : w.Value, reply = .value w value ∧
      value.toNat = ofLittleEndian ((before.bytes.drop offset).take w.size)
  | .copyOut offset count, reply, after => after = before ∧ reply = .bytes ((before.bytes.drop offset).take count)
  | .set w offset value, reply, after =>
    reply = .done ∧ before.Overwritten offset (toLittleEndian w.size value.toNat) after
  | .copyIn offset bytes, reply, after => reply = .done ∧ before.Overwritten offset bytes after
  | .size, _, _ | .clear, _, _ => False

theorem Accepts.ne_rejected {before after : Stored L} {a : Access} {reply : Reply}
    (accepts : before.Accepts a reply after) (e : BlockError) : reply ≠ .rejected e := by
  cases a with
  | get w offset =>
    obtain ⟨-, value, rfl, -⟩ := accepts
    rintro ⟨⟩
  | copyOut offset count =>
    obtain ⟨-, rfl⟩ := accepts
    rintro ⟨⟩
  | set w offset value | copyIn offset bytes =>
    obtain ⟨rfl, -⟩ := accepts
    rintro ⟨⟩
  | size | clear => cases accepts

end Stored

namespace ByteStore

/-- The stores of a type hold what `view` says, and each access is exact or has no effect. -/
structure Exact {β : Type} [ByteStore β] (view : β → Stored L) : Prop where
  size : ∀ store : β, ByteStore.size store = (view store).bytes.length
  rejected_iff : ∀ (store : β) a offset width, Access.range? a = some (offset, width) →
    ((∃ e, (access store a).1 = .rejected e) ↔ (view store).bytes.length < offset + width)
  rejects : ∀ (store : β) a offset width, Access.range? a = some (offset, width) →
    (view store).bytes.length < offset + width →
      access store a = (.rejected (.outOfBounds offset width (view store).bytes.length), store)
  accepts : ∀ (store : β) a offset width, Access.range? a = some (offset, width) →
    offset + width ≤ (view store).bytes.length →
      (view store).Accepts a (access store a).1 (view (access store a).2)

end ByteStore

/-! ### Blocks -/

namespace Block

variable [CodeUnit L]

/-- What a block holds. -/
def stored (block : Block L) : Stored L := ⟨block.contents.toList, block.isWritable, block.code⟩

theorem length_bytes_stored (block : Block L) : block.stored.bytes.length = block.size := by
  rw [← size_contents]
  exact Array.length_toList

@[simp] theorem stored_touch (block : Block L) : block.touch.stored = block.stored := by
  simp [stored]

/-- A code cache that drops a write keeps its code too. -/
theorem overwritten_patch {block : Block L} {offset : Nat} {bytes : List UInt8}
    (fits : offset + bytes.length ≤ block.size) :
    block.stored.Overwritten offset bytes (block.patch offset bytes).stored where
  writable := block.isWritable_patch offset bytes
  replaced writable := by
    have room : offset + bytes.length ≤ block.contents.size := by
      rwa [size_contents]
    have writes : block.isWritable = true := writable
    simp only [stored, contents_patch, writes, if_true]
    exact Contents.toList_splice room
  dropped readOnly := by
    have drops : block.isWritable = false := readOnly
    simp [stored, contents_patch, code_patch, drops]

section
variable {a : Access} {offset width : Nat}

theorem access_of_lt {block : Block L} (ranged : a.range? = some (offset, width))
    (outside : block.size < offset + width) :
    block.access a = (.rejected (.outOfBounds offset width block.size), block) := by
  have beyond : ¬ offset + width ≤ block.size := Nat.not_le.mpr outside
  cases a with
  | get w offset =>
    cases ranged
    rw [access, get_eq, if_neg beyond]
  | set w offset value =>
    cases ranged
    rw [access, set_eq, if_neg beyond]
  | copyOut offset count =>
    cases ranged
    rw [access, read_eq, if_neg beyond]
  | copyIn offset bytes =>
    cases ranged
    rw [access, write_eq, if_neg beyond]
  | size | clear => cases ranged

theorem accepts_of_le {block : Block L} (ranged : a.range? = some (offset, width))
    (fits : offset + width ≤ block.size) :
    block.stored.Accepts a (block.access a).1 (block.access a).2.stored := by
  cases a with
  | get w offset =>
    cases ranged
    rw [access, get_eq, if_pos fits]
    rw [← size_contents] at fits
    refine ⟨block.stored_touch, _, rfl, ?_⟩
    rw [Width.toNat_decode (Contents.length_slice fits), Contents.slice_eq_take_drop]
    rfl
  | set w offset value =>
    cases ranged
    rw [access, set_eq, if_pos fits]
    rw [← w.length_encode value] at fits
    exact ⟨rfl, overwritten_patch fits⟩
  | copyOut offset count =>
    cases ranged
    rw [access, read_eq, if_pos fits]
    exact ⟨block.stored_touch, congrArg Reply.bytes (Contents.slice_eq_take_drop ..)⟩
  | copyIn offset bytes =>
    cases ranged
    rw [access, write_eq, if_pos fits]
    exact ⟨rfl, overwritten_patch fits⟩
  | size | clear => cases ranged

end

/-! ### Stores -/

theorem wraps_id : Wraps (id : Block L → Block L) where
  size _ := rfl
  read store offset count := by
    show store.read offset count = (store.read offset count).map id
    cases store.read offset count <;> rfl
  write store offset bytes := by
    show store.write offset bytes = (store.write offset bytes).map id
    cases store.write offset bytes <;> rfl

theorem wraps_ram : Wraps (ram : RamBlock → Block L) :=
  ⟨fun _ => rfl, fun _ _ _ => rfl, fun _ _ _ => rfl⟩

theorem wraps_rom : Wraps (rom : RomBlock → Block L) :=
  ⟨fun _ => rfl, fun _ _ _ => rfl, fun _ _ _ => rfl⟩

section
variable {β : Type} [ByteStore β] {wrap : β → Block L} {store : β} {a : Access} {offset width : Nat}

theorem Wraps.access_eq (wraps : Wraps wrap) (ranged : a.range? = some (offset, width)) :
    (wrap store).access a = ((ByteStore.access store a).1, wrap (ByteStore.access store a).2) := by
  apply wraps.access store
  rintro rfl
  cases ranged

theorem Wraps.rejects (wraps : Wraps wrap) (injective : Function.Injective wrap)
    (ranged : a.range? = some (offset, width)) (outside : (wrap store).stored.bytes.length < offset + width) :
    ByteStore.access store a =
      (.rejected (.outOfBounds offset width (wrap store).stored.bytes.length), store) := by
  rw [length_bytes_stored] at outside ⊢
  have rejected := access_of_lt ranged outside
  rw [wraps.access_eq ranged] at rejected
  obtain ⟨replied, left⟩ := Prod.mk.inj rejected
  exact Prod.ext replied (injective left)

theorem Wraps.accepts (wraps : Wraps wrap) (ranged : a.range? = some (offset, width))
    (fits : offset + width ≤ (wrap store).stored.bytes.length) :
    (wrap store).stored.Accepts a (ByteStore.access store a).1 (wrap (ByteStore.access store a).2).stored := by
  rw [length_bytes_stored] at fits
  have accepted := accepts_of_le ranged fits
  rwa [wraps.access_eq ranged] at accepted

/-- A store of which a block can be made, and no other block of another store, keeps the contract as the block does. -/
theorem Wraps.exact (wraps : Wraps wrap) (injective : Function.Injective wrap) :
    ByteStore.Exact fun store => (wrap store).stored where
  size store := by rw [length_bytes_stored, wraps.size]
  rejected_iff store a offset width ranged := by
    constructor
    · rintro ⟨e, rejected⟩
      by_contra fits
      exact (wraps.accepts ranged (Nat.le_of_not_lt fits)).ne_rejected e rejected
    · intro outside
      exact ⟨_, congrArg Prod.fst (wraps.rejects injective ranged outside)⟩
  rejects _ _ _ _ ranged outside := wraps.rejects injective ranged outside
  accepts _ _ _ _ ranged fits := wraps.accepts ranged fits

end

theorem exact_stored : ByteStore.Exact (stored : Block L → Stored L) := wraps_id.exact Function.injective_id

end Block

/-- Blocks of all kinds, and the stores that they are made of, keep one contract: an access is rejected exactly if its
    range is not inside the store, and then the store is as it was; otherwise it returns, or replaces, just the bytes of
    the range. For the bounds it makes no difference that the end of a range may be too large for a word. -/
theorem ByteStore.accesses_exact [CodeUnit L] :
    Exact (Block.stored : Block L → Stored L) ∧
      Exact (fun b : LazyBlock => (⟨b.contents.toList, true, ∅⟩ : Stored L)) ∧
      Exact (fun b : RamBlock => (⟨b.contents.toList, true, ∅⟩ : Stored L)) ∧
      Exact (fun b : RomBlock => (⟨b.contents.toList, false, ∅⟩ : Stored L)) ∧
      Exact (fun c : CodeCache L => ⟨c.contents.toList, c.writable, c.entries⟩) ∧
      ∀ offset width size : UInt64, checkBoundsInWords offset width size =
        checkBounds offset.toNat width.toNat size.toNat :=
  ⟨Block.exact_stored, Block.wraps_lazy.exact fun _ _ => Block.lazy.inj, Block.wraps_ram.exact fun _ _ => Block.ram.inj,
    Block.wraps_rom.exact fun _ _ => Block.rom.inj, Block.wraps_cache.exact fun _ _ => Block.cache.inj,
    checkBoundsInWords_eq⟩

section
open Fusion.Toy ByteStore

/-- Firmware of two bytes, with code. -/
def translated : CodeCache Stub := ((CodeCache.ofContents #[0x74, 3] false).insert 0 tree).get rfl

/-- A range that begins at the largest offset is rejected by a block that waits for its storage, which still waits. A
    word goes into the last two bytes of three. A write to firmware is accepted, and leaves the bytes and the code. -/
theorem edges_exact :
    access (LazyBlock.withSize 6) (.set .quadword maxWord64 7) =
        (.rejected (.outOfBounds maxWord64 8 6), LazyBlock.withSize 6) ∧
      (access (LazyBlock.withSize 3) (.set .word 1 0x1234)).2.contents.toList = [0, 0x34, 0x12] ∧
      (access translated (.copyIn 1 [9])).1 = .done ∧
      (access translated (.copyIn 1 [9])).2.entries = translated.entries ∧
      (access (Block.cache translated) (.get .word 1)).1 = .rejected (.outOfBounds 1 2 2) := by
  obtain ⟨block, waiting, -, -, cache, -⟩ := accesses_exact (L := Stub)
  have straddles := waiting.rejects (.withSize 6) (.set .quadword maxWord64 7) maxWord64 8 rfl (by decide +kernel)
  obtain ⟨-, stored⟩ := waiting.accepts (.withSize 3) (.set .word 1 0x1234) 1 2 rfl (by decide)
  obtain ⟨done, kept⟩ := cache.accepts translated (.copyIn 1 [9]) 1 1 rfl (by decide)
  have past := block.rejects (.cache translated) (.get .word 1) 1 2 rfl (by decide)
  refine ⟨straddles, (stored.replaced rfl).trans (by decide), done, ?_, congrArg Prod.fst past⟩
  exact congrArg Stored.code (kept.dropped rfl)

end

end GuestMemory
