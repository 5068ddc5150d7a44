import GuestMemory.Block.Basic

/-!
What an access does to a block, said once for all kinds of block. An access that does not fit is
rejected; one that fits gives the bytes of the contents and touches the block (`read_eq`), or patches
them (`write_eq`). Neither changes the size of a block or whether it can be written.
-/
namespace GuestMemory

/-- A slice that fits holds the bytes from `offset` on. -/
theorem Contents.getElem?_slice (contents : Contents) (offset count i : Nat) :
    (contents.slice offset count)[i]? = if i < count then contents[offset + i]? else none := by
  simp only [Contents.slice, Array.getElem?_toList, Array.getElem?_extract]
  by_cases inside : offset + i < contents.size
  · by_cases short : i < count
    · rw [if_pos short, if_pos (by omega)]
    · rw [if_neg short, if_neg (by omega)]
  · rw [if_neg (by omega), Array.getElem?_eq_none (by omega), ite_self]

namespace CodeCache

variable {L : Type} [CodeUnit L]

@[simp] theorem contents_invalidate (c : CodeCache L) (offset length : Nat) :
    (c.invalidate offset length).contents = c.contents := by
  rw [invalidate]
  split <;> rfl

@[simp] theorem writable_invalidate (c : CodeCache L) (offset length : Nat) :
    (c.invalidate offset length).writable = c.writable := by
  rw [invalidate]
  split <;> rfl

theorem entries_invalidate (c : CodeCache L) (offset length : Nat) :
    (c.invalidate offset length).entries =
      if length = 0 then c.entries else c.entries.filter (disjointFrom offset length) := by
  rw [invalidate]
  split <;> rfl

end CodeCache

namespace Block

variable {L : Type} [CodeUnit L]

/-- The block after it was read: an untouched one has got its storage. -/
def touch : Block L → Block L
  | lazy b => lazy (.touched b.contents)
  | ram b => ram b
  | rom b => rom b
  | cache c => cache c

theorem read_eq (block : Block L) (offset count : Nat) :
    block.read offset count =
      if offset + count ≤ block.size then .ok (block.contents.slice offset count, block.touch)
      else .error (.outOfBounds offset count block.size) := by
  by_cases fits : offset + count ≤ block.size
  · rw [if_pos fits]
    cases block <;> simp only [size, CodeCache.size] at fits <;>
      simp [read, LazyBlock.read, RamBlock.read, RomBlock.read, CodeCache.read, Contents.read, checkBounds,
        Except.map, contents, touch, fits]
  · rw [if_neg fits]
    cases block <;> simp only [size, CodeCache.size] at fits <;>
      simp [read, LazyBlock.read, RamBlock.read, RomBlock.read, CodeCache.read, Contents.read, checkBounds,
        Except.map, size, CodeCache.size, fits]

@[simp] theorem contents_touch (block : Block L) : block.touch.contents = block.contents := by
  cases block <;> rfl

@[simp] theorem size_touch (block : Block L) : block.touch.size = block.size := by
  rw [← size_contents, contents_touch, size_contents]

@[simp] theorem isWritable_touch (block : Block L) : block.touch.isWritable = block.isWritable := by
  cases block <;> rfl

@[simp] theorem kindName_touch (block : Block L) : block.touch.kindName = block.kindName := by
  cases block <;> rfl

@[simp] theorem isAllocated_touch (block : Block L) : block.touch.isAllocated = true := by
  cases block <;> rfl

@[simp] theorem isSome_cache?_touch (block : Block L) : block.touch.cache?.isSome = block.cache?.isSome := by
  cases block <;> rfl

@[simp] theorem touch_touch (block : Block L) : block.touch.touch = block.touch := by
  cases block <;> rfl

/-- The block comes without any code. -/
def Bare (block : Block L) : Prop := ∀ cache, block.cache? = some cache → cache.entries = ∅

theorem bare_of_cache?_eq_none {block : Block L} (plain : block.cache? = none) : block.Bare := by
  intro cache found
  rw [plain] at found
  cases found

/-- Clearing a block drops its code, whatever becomes of its bytes. -/
theorem bare_clear (block : Block L) : block.clear.Bare := by
  cases block with
  | cache c =>
    rw [clear]
    split
    · exact bare_of_cache?_eq_none rfl
    · rintro _ ⟨⟩
      rfl
  | _ => exact bare_of_cache?_eq_none rfl

@[simp] theorem isWritable_clear (block : Block L) : block.clear.isWritable = block.isWritable := by
  cases block with
  | cache c => cases writable : c.writable <;> simp [clear, fresh, isWritable, CodeCache.clear, writable]
  | _ => rfl

/-- Only a code cache that can be written changes its size with a clear, to that of a whole block. -/
theorem size_clear (block : Block L) :
    block.clear.size = if block.cache?.isSome && block.isWritable then blockSize else block.size := by
  cases block with
  | cache c =>
    cases writable : c.writable with
    | true =>
      simp [clear, cache?, isWritable, writable, fresh, size, LazyBlock.new, LazyBlock.withSize, LazyBlock.size]
    | false => simp [clear, cache?, isWritable, writable, size, CodeCache.size, CodeCache.clear]
  | ram b => simp [clear, cache?, size, RamBlock.clear, Contents.zeros]
  | lazy b | rom b => rfl

/-- A clear makes no block shorter than its addresses. -/
theorem le_size_clear {block : Block L} {offset : Nat} (inside : offset ≤ block.size) (near : offset ≤ blockSize) :
    offset ≤ block.clear.size := by
  rw [size_clear]
  split
  · exact near
  · exact inside

/-- A clear makes no block longer than its addresses. -/
theorem size_clear_le {block : Block L} (fits : block.size ≤ blockSize) : block.clear.size ≤ blockSize := by
  rw [size_clear]
  split
  · exact Nat.le_refl _
  · exact fits

/-- Of two clears, the second changes nothing. -/
@[simp] theorem clear_clear (block : Block L) : block.clear.clear = block.clear := by
  cases block with
  | lazy b => rfl
  | ram b => simp [clear, RamBlock.clear, Contents.zeros]
  | rom b => rfl
  | cache c =>
    by_cases writable : c.writable = true
    · simp [clear, writable, fresh, LazyBlock.new, LazyBlock.withSize, LazyBlock.clear, LazyBlock.size]
    · simp [clear, writable, CodeCache.clear]

/-- A clear leaves zeros, and firmware as it is. -/
theorem contents_clear (block : Block L) :
    block.clear.contents = if block.isWritable then Contents.zeros block.clear.size else block.contents := by
  cases block with
  | cache c =>
    cases writable : c.writable with
    | true => simp [clear, isWritable, writable, fresh, contents, size, LazyBlock.new, LazyBlock.withSize,
        LazyBlock.contents, LazyBlock.size]
    | false => simp [clear, isWritable, writable, contents, CodeCache.clear]
  | ram b => simp [clear, isWritable, contents, size, RamBlock.clear, Contents.zeros]
  | lazy b | rom b => rfl

/-- The block after `bytes`, which it has room for, were written from `offset` on. -/
def patch (block : Block L) (offset : Nat) (bytes : List UInt8) : Block L :=
  match block with
  | lazy b => lazy (.touched (b.contents.splice offset bytes))
  | ram b => ram ⟨b.contents.splice offset bytes⟩
  | rom b => rom b
  | cache c =>
    if c.writable then
      cache ({ c with contents := c.contents.splice offset bytes }.invalidate offset bytes.length)
    else cache c

theorem write_eq (block : Block L) (offset : Nat) (bytes : List UInt8) :
    block.write offset bytes =
      if offset + bytes.length ≤ block.size then .ok (block.patch offset bytes)
      else .error (.outOfBounds offset bytes.length block.size) := by
  by_cases fits : offset + bytes.length ≤ block.size
  · rw [if_pos fits]
    cases block with
    | cache c =>
      simp only [size, CodeCache.size] at fits
      cases writable : c.writable <;>
        simp [write, CodeCache.write, checkBounds, CodeCache.size, Except.map, patch, fits, writable]
    | _ =>
      simp only [size] at fits
      simp [write, LazyBlock.write, RamBlock.write, RomBlock.write, Contents.write, checkBounds, Except.map,
        patch, fits]
  · rw [if_neg fits]
    cases block <;> simp only [size, CodeCache.size] at fits <;>
      simp [write, LazyBlock.write, RamBlock.write, RomBlock.write, CodeCache.write, Contents.write,
        checkBounds, Except.map, size, CodeCache.size, fits]

/-- Firmware keeps its bytes. -/
theorem contents_patch (block : Block L) (offset : Nat) (bytes : List UInt8) :
    (block.patch offset bytes).contents =
      if block.isWritable then block.contents.splice offset bytes else block.contents := by
  cases block with
  | cache c => cases writable : c.writable <;> simp [patch, contents, isWritable, writable]
  | _ => simp [patch, contents, isWritable, LazyBlock.contents]

@[simp] theorem isWritable_patch (block : Block L) (offset : Nat) (bytes : List UInt8) :
    (block.patch offset bytes).isWritable = block.isWritable := by
  cases block with
  | cache c => cases writable : c.writable <;> simp [patch, isWritable, writable]
  | _ => rfl

@[simp] theorem isSome_cache?_patch (block : Block L) (offset : Nat) (bytes : List UInt8) :
    (block.patch offset bytes).cache?.isSome = block.cache?.isSome := by
  cases block with
  | cache c =>
    rw [patch]
    split <;> rfl
  | _ => rfl

@[simp] theorem size_patch (block : Block L) (offset : Nat) (bytes : List UInt8) :
    (block.patch offset bytes).size = block.size := by
  rw [← size_contents, contents_patch]
  split <;> simp

end Block

end GuestMemory
