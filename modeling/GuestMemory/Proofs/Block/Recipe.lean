import GuestMemory.Block.Basic

/-!
How blocks are made. All ways but one make blocks that are as long as their addresses at most
(`size_make_le_iff`).
-/
namespace GuestMemory

/-- The ways to make a block. -/
inductive Recipe where
  | untouched
  | untouchedOf (size : Nat)
  | ram
  | rom (image : List UInt8)
  | padded (image : List UInt8) (fill : UInt8)
  | cache
  /-- Takes over the contents as they are. -/
  | cacheOf (contents : Contents) (writable : Bool)

theorem RomBlock.size_padded (image : List UInt8) (fill : UInt8) : (padded image fill).contents.size = blockSize := by
  simp only [padded, List.size_toArray, List.length_append, List.length_take, List.length_replicate]
  omega

theorem RomBlock.getElem?_padded (image : List UInt8) (fill : UInt8) {i : Nat} (inside : i < blockSize) :
    (padded image fill).contents[i]? = some (image[i]?.getD fill) := by
  have room : i < blockSize - image.length + image.length := by omega
  simp only [padded, List.getElem?_toArray, List.getElem?_append, List.length_take]
  by_cases short : i < image.length
  · rw [if_pos (Nat.lt_min.mpr ⟨inside, short⟩), List.getElem?_take, if_pos inside, List.getElem?_eq_getElem short,
      Option.getD_some]
  · rw [if_neg (fun both => short (Nat.lt_min.mp both).2), List.getElem?_replicate, if_pos (by omega),
      List.getElem?_eq_none (Nat.le_of_not_lt short), Option.getD_none]

namespace Recipe

variable {L : Type} [CodeUnit L]

def make : Recipe → Block L
  | untouched => .lazy .new
  | untouchedOf size => .lazy (.withSize size)
  | ram => .ram .new
  | rom image => .rom (.ofImage image)
  | padded image fill => .rom (.padded image fill)
  | cache => .cache .new
  | cacheOf contents writable => .cache (.ofContents contents writable)

/-- A block is as long as its addresses at most, unless it took over longer contents. -/
theorem size_make_le_iff {recipe : Recipe} : (recipe.make : Block L).size ≤ blockSize ↔
    ∀ contents writable, recipe = .cacheOf contents writable → contents.size ≤ blockSize := by
  cases recipe with
  | cacheOf contents writable => simp [make, Block.size, CodeCache.size, CodeCache.ofContents]
  | untouched => exact iff_of_true (Nat.min_le_right _ _) (by rintro _ _ ⟨⟩)
  | untouchedOf size => exact iff_of_true (Nat.min_le_right _ _) (by rintro _ _ ⟨⟩)
  | ram => exact iff_of_true (by simp [make, Block.size, RamBlock.new, Contents.zeros]) (by rintro _ _ ⟨⟩)
  | rom image =>
    refine iff_of_true ?_ (by rintro _ _ ⟨⟩)
    simp only [make, Block.size, RomBlock.ofImage, List.size_toArray, List.length_take]
    exact Nat.min_le_left _ _
  | padded image fill => exact iff_of_true (Nat.le_of_eq (RomBlock.size_padded image fill)) (by rintro _ _ ⟨⟩)
  | cache =>
    refine iff_of_true ?_ (by rintro _ _ ⟨⟩)
    simp [make, Block.size, CodeCache.size, CodeCache.new, CodeCache.ofContents, Contents.zeros]

end Recipe

end GuestMemory
