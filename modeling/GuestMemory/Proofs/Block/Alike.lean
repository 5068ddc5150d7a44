import GuestMemory.Proofs.Block.Code
import GuestMemory.Proofs.Block.Recipe
import Mathlib.Tactic.SplitIfs

/-!
Blocks that cannot be told apart. Two blocks with the same bytes, the same code and the same way with
writes and clears answer every access alike, and stay alike (`Alike.access`), whatever their kinds are. A
block that is converted and then cleared is like one that is only cleared, exactly if it was a whole block
to begin with, or was no memory that can be written, or was a code cache already
(`replies_clear_toCodeCache_iff`).
-/
namespace GuestMemory.Block

variable {L : Type} [CodeUnit L]

@[simp] theorem code_clear (block : Block L) : block.clear.code = ∅ := by
  cases block with
  | cache c =>
    rw [clear]
    split <;> rfl
  | _ => rfl

/-- Nothing that is asked of the two blocks tells them apart, now or after anything that is done to both. -/
structure Alike (x y : Block L) : Prop where
  contents : x.contents = y.contents
  writable : x.isWritable = y.isWritable
  code : x.code = y.code
  cleared : x.clear.size = y.clear.size

theorem Alike.refl (block : Block L) : block.Alike block := ⟨rfl, rfl, rfl, rfl⟩

section
variable {x y : Block L}

theorem Alike.size (alike : x.Alike y) : x.size = y.size := by
  rw [← size_contents, alike.contents, size_contents]

theorem Alike.toCodeCache_eq (alike : x.Alike y) : x.toCodeCache = y.toCodeCache := by
  have contents := x.contents_toCodeCache.trans (alike.contents.trans y.contents_toCodeCache.symm)
  have writable := x.writable_toCodeCache.trans (alike.writable.trans y.writable_toCodeCache.symm)
  have entries := x.entries_toCodeCache.trans (alike.code.trans y.entries_toCodeCache.symm)
  generalize x.toCodeCache = c at *
  generalize y.toCodeCache = c' at *
  cases c
  cases c'
  simp_all

@[simp] theorem size_clear_touch (block : Block L) : block.touch.clear.size = block.clear.size := by
  simp only [size_clear, isSome_cache?_touch, isWritable_touch, size_touch]

theorem Alike.touch (alike : x.Alike y) : x.touch.Alike y.touch where
  contents := by simpa using alike.contents
  writable := by simpa using alike.writable
  code := by simpa using alike.code
  cleared := by rw [size_clear_touch, size_clear_touch, alike.cleared]

theorem Alike.clear (alike : x.Alike y) : x.clear.Alike y.clear where
  contents := by rw [contents_clear, contents_clear, alike.writable, alike.cleared, alike.contents]
  writable := by simpa using alike.writable
  code := by rw [code_clear, code_clear]
  cleared := by rw [clear_clear, clear_clear, alike.cleared]

@[simp] theorem size_clear_patch (block : Block L) (offset : Nat) (bytes : List UInt8) :
    (block.patch offset bytes).clear.size = block.clear.size := by
  simp only [size_clear, isSome_cache?_patch, isWritable_patch, size_patch]

theorem Alike.patch (alike : x.Alike y) (offset : Nat) (bytes : List UInt8) :
    (x.patch offset bytes).Alike (y.patch offset bytes) where
  contents := by rw [contents_patch, contents_patch, alike.writable, alike.contents]
  writable := by rw [isWritable_patch, isWritable_patch, alike.writable]
  code := by rw [code_patch, code_patch, alike.writable, alike.code]
  cleared := by rw [size_clear_patch, size_clear_patch, alike.cleared]

end

/-! ### Accesses -/

/-- What can be asked of a single block, or done to it. -/
inductive Access where
  | size
  | get (w : Width) (offset : Nat)
  | set (w : Width) (offset : Nat) (value : w.Value)
  | copyOut (offset count : Nat)
  | copyIn (offset : Nat) (bytes : List UInt8)
  | clear

inductive Reply where
  | size (n : Nat)
  | value (w : Width) (value : w.Value)
  | bytes (bytes : List UInt8)
  | done
  | rejected (e : BlockError)

/-- One access; a block that rejects it stays as it is. -/
def access (block : Block L) : Access → Reply × Block L
  | .size => (.size block.size, block)
  | .get w offset =>
    match ByteStore.get w block offset with
    | .error e => (.rejected e, block)
    | .ok (value, block) => (.value w value, block)
  | .set w offset value =>
    match ByteStore.set w block offset value with
    | .error e => (.rejected e, block)
    | .ok block => (.done, block)
  | .copyOut offset count =>
    match block.read offset count with
    | .error e => (.rejected e, block)
    | .ok (bytes, block) => (.bytes bytes, block)
  | .copyIn offset bytes =>
    match block.write offset bytes with
    | .error e => (.rejected e, block)
    | .ok block => (.done, block)
  | .clear => (.done, block.clear)

/-- The block after a history of accesses. -/
def after (block : Block L) (history : List Access) : Block L :=
  history.foldl (fun block access => (block.access access).2) block

/-- What the block replies to accesses one after the other. -/
def replies (block : Block L) : List Access → List Reply
  | [] => []
  | a :: rest => (block.access a).1 :: (block.access a).2.replies rest

theorem get_eq (block : Block L) (w : Width) (offset : Nat) : ByteStore.get w block offset =
    if offset + w.size ≤ block.size then .ok (w.decode (block.contents.slice offset w.size), block.touch)
    else .error (.outOfBounds offset w.size block.size) := by
  simp only [ByteStore.get, ByteStore.read, read_eq]
  split_ifs <;> rfl

theorem set_eq (block : Block L) (w : Width) (offset : Nat) (value : w.Value) :
    ByteStore.set w block offset value =
      if offset + w.size ≤ block.size then .ok (block.patch offset (w.encode value))
      else .error (.outOfBounds offset w.size block.size) := by
  show block.write offset (w.encode value) = _
  rw [write_eq, w.length_encode]

/-- Blocks that are alike reply alike to an access, and are alike after it. -/
theorem Alike.access {x y : Block L} (alike : x.Alike y) (a : Access) :
    (x.access a).1 = (y.access a).1 ∧ (x.access a).2.Alike (y.access a).2 := by
  cases a with
  | size => exact ⟨congrArg Reply.size alike.size, alike⟩
  | get w offset =>
    simp only [Block.access, get_eq, alike.size, alike.contents]
    split_ifs
    · exact ⟨rfl, alike.touch⟩
    · exact ⟨rfl, alike⟩
  | set w offset value =>
    simp only [Block.access, set_eq, alike.size]
    split_ifs
    · exact ⟨rfl, alike.patch _ _⟩
    · exact ⟨rfl, alike⟩
  | copyOut offset count =>
    simp only [Block.access, read_eq, alike.size, alike.contents]
    split_ifs
    · exact ⟨rfl, alike.touch⟩
    · exact ⟨rfl, alike⟩
  | copyIn offset bytes =>
    simp only [Block.access, write_eq, alike.size]
    split_ifs
    · exact ⟨rfl, alike.patch _ _⟩
    · exact ⟨rfl, alike⟩
  | clear => exact ⟨rfl, alike.clear⟩

theorem Alike.replies {x y : Block L} (alike : x.Alike y) (later : List Access) :
    x.replies later = y.replies later := by
  induction later generalizing x y with
  | nil => rfl
  | cons a rest ih =>
    obtain ⟨same, alike'⟩ := alike.access a
    rw [Block.replies, Block.replies, same, ih alike']

/-! ### Conversion before a clear -/

/-- If the block is memory that can be written and is no code cache yet, it is a whole block. -/
def Whole (block : Block L) : Prop := block.cache? = none → block.isWritable = true → block.size = blockSize

/-- A conversion changes the size that a clear leaves unless the block is whole. -/
theorem whole_iff {block : Block L} :
    block.Whole ↔ (cache block.toCodeCache).clear.size = block.clear.size := by
  have converted : (cache block.toCodeCache).clear.size = if block.isWritable then blockSize else block.size := by
    rw [size_clear, isWritable_cache_toCodeCache, size_cache_toCodeCache]
    rfl
  rw [converted, size_clear, Whole]
  cases block.cache? <;> cases block.isWritable <;> simp [eq_comm]

theorem alike_clear_toCodeCache {block : Block L} (whole : block.Whole) :
    (cache block.toCodeCache).clear.Alike block.clear := by
  have size := whole_iff.mp whole
  refine ⟨?_, ?_, by rw [code_clear, code_clear], by rw [clear_clear, clear_clear, size]⟩
  · rw [contents_clear, contents_clear, isWritable_cache_toCodeCache, size, contents_cache_toCodeCache]
  · rw [isWritable_clear, isWritable_clear, isWritable_cache_toCodeCache]

theorem whole_congr {x y : Block L} (cached : x.cache?.isSome = y.cache?.isSome)
    (writable : x.isWritable = y.isWritable) (size : x.size = y.size) : x.Whole ↔ y.Whole := by
  rw [Whole, Whole, ← Option.not_isSome_iff_eq_none, ← Option.not_isSome_iff_eq_none, cached, writable, size]

theorem whole_clear_iff {block : Block L} : block.clear.Whole ↔ block.Whole := by
  cases block with
  | cache c => cases writable : c.writable <;> simp [clear, Whole, cache?, isWritable, fresh, writable, size,
      LazyBlock.new, LazyBlock.withSize, LazyBlock.size]
  | ram b => exact whole_congr rfl rfl (by simp [clear, size, RamBlock.clear, Contents.zeros])
  | lazy b | rom b => exact whole_congr rfl rfl rfl

/-- What an access leaves: the block as it was, read, written or cleared. -/
theorem access_block (block : Block L) (a : Access) : (block.access a).2 = block ∨ (block.access a).2 = block.touch ∨
    (∃ offset bytes, (block.access a).2 = block.patch offset bytes) ∨ (block.access a).2 = block.clear := by
  cases a with
  | size => exact .inl rfl
  | get w offset =>
    simp only [access, get_eq]
    split_ifs
    · exact .inr (.inl rfl)
    · exact .inl rfl
  | set w offset value =>
    simp only [access, set_eq]
    split_ifs
    · exact .inr (.inr (.inl ⟨_, _, rfl⟩))
    · exact .inl rfl
  | copyOut offset count =>
    simp only [access, read_eq]
    split_ifs
    · exact .inr (.inl rfl)
    · exact .inl rfl
  | copyIn offset bytes =>
    simp only [access, write_eq]
    split_ifs
    · exact .inr (.inr (.inl ⟨_, _, rfl⟩))
    · exact .inl rfl
  | clear => exact .inr (.inr (.inr rfl))

theorem whole_access_iff (block : Block L) (a : Access) : (block.access a).2.Whole ↔ block.Whole := by
  rcases block.access_block a with same | same | ⟨offset, bytes, same⟩ | same <;> rw [same]
  · exact whole_congr block.isSome_cache?_touch block.isWritable_touch block.size_touch
  · exact whole_congr (block.isSome_cache?_patch offset bytes) (block.isWritable_patch offset bytes)
      (block.size_patch offset bytes)
  · exact whole_clear_iff

theorem size_access_le {block : Block L} (fits : block.size ≤ blockSize) (a : Access) :
    (block.access a).2.size ≤ blockSize := by
  rcases block.access_block a with same | same | ⟨offset, bytes, same⟩ | same <;> rw [same]
  · exact fits
  · rwa [size_touch]
  · rwa [size_patch]
  · exact size_clear_le fits

theorem size_after_le {block : Block L} (fits : block.size ≤ blockSize) (history : List Access) :
    (block.after history).size ≤ blockSize := by
  induction history generalizing block with
  | nil => exact fits
  | cons a rest ih => exact ih (size_access_le fits a)

theorem whole_after_iff (block : Block L) (history : List Access) : (block.after history).Whole ↔ block.Whole := by
  induction history generalizing block with
  | nil => exact Iff.rfl
  | cons a rest ih => exact (ih _).trans (block.whole_access_iff a)

/-- Of the blocks as they are made, all are whole but short ones that wait for their storage. -/
theorem whole_make_iff {recipe : Recipe} : (recipe.make : Block L).Whole ↔
    ∀ size, recipe = .untouchedOf size → blockSize ≤ size := by
  cases recipe with
  | untouchedOf size =>
    have length : (Recipe.untouchedOf size).make (L := L).size = min size blockSize := rfl
    constructor
    · rintro whole _ ⟨⟩
      have full := whole rfl rfl
      omega
    · intro long _ _
      have enough := long size rfl
      omega
  | untouched => exact iff_of_true (fun _ _ => rfl) (by rintro _ ⟨⟩)
  | ram =>
    refine iff_of_true (fun _ _ => ?_) (by rintro _ ⟨⟩)
    simp [Recipe.make, Block.size, RamBlock.new, Contents.zeros]
  | rom | padded => exact iff_of_true (fun _ writable => by cases writable) (by rintro _ ⟨⟩)
  | cache | cacheOf => exact iff_of_true (fun plain => by cases plain) (by rintro _ ⟨⟩)

/-- After any history, a block that is converted and then cleared replies to all accesses as it would if it
    were only cleared, exactly if it is whole. -/
theorem replies_clear_toCodeCache_iff (block : Block L) (history : List Access) :
    (∀ later, (cache (block.after history).toCodeCache).clear.replies later =
      (block.after history).clear.replies later) ↔ block.Whole := by
  rw [← block.whole_after_iff history]
  constructor
  · intro same
    have size := same [.size]
    exact whole_iff.mpr (Reply.size.inj (List.cons.inj size).1)
  · intro whole later
    exact (alike_clear_toCodeCache whole).replies later

end GuestMemory.Block
