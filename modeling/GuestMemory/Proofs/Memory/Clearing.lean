import GuestMemory.Memory.Basic
import GuestMemory.Proofs.Block.Code
import GuestMemory.Proofs.Fusion.Toy
import GuestMemory.Proofs.Memory.Related

/-!
Clearing a view. A clear goes through the handles in the directory of the view, in whatever order, and clears the
block behind each. One clear of a block is as good as many (`Block.clear_clear`), so every block that is mapped has
been cleared once in the end (`Arena.get?_clearAll`), however often and in whatever order its handle came up, and no
other block has changed.
-/
namespace GuestMemory

variable {L : Type} [CodeUnit L]

namespace Block

/-- What a clear makes of a block. -/
structure Cleared (before after : Block L) : Prop where
  code : ∀ offset, after.codeAt offset = none
  /-- An untouched block of its size again. -/
  lazy : ∀ b, before = .lazy b → ∃ b', after = .lazy b' ∧ b'.isAllocated = false ∧ b'.size = b.size
  /-- Zeros. -/
  ram : ∀ b, before = .ram b → ∃ b', after = .ram b' ∧ b'.contents.size = b.contents.size ∧
    ∀ i (inside : i < b'.contents.size), b'.contents[i] = 0
  /-- An untouched block, and no code cache any more. -/
  converted : ∀ c, before = .cache c → c.writable = true → ∃ b', after = .lazy b' ∧ b'.isAllocated = false
  /-- Firmware, as a ROM block or as a code cache, stays what it is. -/
  firmware : before.isWritable = false → after.isWritable = false ∧ after.kindName = before.kindName ∧
    after.contents = before.contents

theorem cleared_clear (block : Block L) : block.Cleared block.clear where
  code := block.codeAt_clear
  lazy b isLazy := by
    subst isLazy
    exact ⟨b.clear, rfl, rfl, rfl⟩
  ram b isRam := by
    subst isRam
    refine ⟨b.clear, rfl, ?_, ?_⟩
    · simp [RamBlock.clear, Contents.zeros]
    · intro i inside
      simp [RamBlock.clear, Contents.zeros]
  converted c isCache writable := by
    subst isCache
    refine ⟨LazyBlock.new, ?_, rfl⟩
    rw [clear, if_pos writable]
    rfl
  firmware readOnly := by
    refine ⟨?_, ?_, ?_⟩
    · rw [isWritable_clear, readOnly]
    · cases block with
      | cache c =>
        have keeps : c.writable ≠ true := by simpa [isWritable] using readOnly
        rw [clear, if_neg keeps]
        rfl
      | lazy b | ram b | rom b => rfl
    · rw [contents_clear, readOnly]
      rfl

end Block

namespace Arena

/-- Two arenas that hold the same in every slot are the same. -/
theorem eq_of_get? {x y : Arena L} (same : ∀ h, x.get? h = y.get? h) : x = y := by
  have slots : x.slots = y.slots := by
    apply Array.ext_getElem?
    intro i
    exact same ⟨i⟩
  cases x
  cases y
  exact congrArg Arena.mk slots

theorem size_clearAll (hs : List Handle) (arena : Arena L) : (arena.clearAll hs).size = arena.size := by
  induction hs generalizing arena with
  | nil => rfl
  | cons h rest ih =>
    have step : arena.clearAll (h :: rest) = (arena.modify h Block.clear).clearAll rest := rfl
    rw [step, ih]
    simp [size, modify]

/-- It does not matter in which order the handles come, or how often one does. -/
theorem clearAll_congr {hs hs' : List Handle} (same : ∀ h, h ∈ hs ↔ h ∈ hs') (arena : Arena L) :
    arena.clearAll hs = arena.clearAll hs' := by
  apply eq_of_get?
  intro h
  rw [get?_clearAll, get?_clearAll]
  simp only [same]

theorem clearAll_clearAll (hs : List Handle) (arena : Arena L) :
    (arena.clearAll hs).clearAll hs = arena.clearAll hs := by
  apply eq_of_get?
  intro h
  rw [get?_clearAll, get?_clearAll]
  by_cases listed : h ∈ hs
  · simp [listed, Function.comp_def]
  · simp [listed]

end Arena

theorem Directory.mem_handles {d : Directory} {h : Handle} :
    h ∈ d.handles ↔ ∃ index, d.handleForIndex index = some h :=
  Table.mem_values

namespace Memory

/-- The memory after the blocks behind the handles were cleared, one after the other. -/
def clearAll (m : Memory L) (hs : List Handle) : Memory L := { m with arena := m.arena.clearAll hs }

/-- What a clear of a view does to the memory. -/
structure Cleared (m : Memory L) (v : View) (after : Memory L) : Prop where
  directory : ∀ v', after.directory v' = m.directory v'
  size : after.arena.size = m.arena.size
  mapped : ∀ index h block, (m.directory v).handleForIndex index = some h → m.arena.get? h = some block →
    ∃ block', after.arena.get? h = some block' ∧ block.Cleared block'
  unmapped : ∀ h, (∀ index, (m.directory v).handleForIndex index ≠ some h) → after.arena.get? h = m.arena.get? h

theorem clear_cleared (m : Memory L) (v : View) : m.Cleared v (m.clear v) where
  directory := directory_with_arena m _
  size := Arena.size_clearAll _ _
  mapped index h block entry found := by
    refine ⟨block.clear, ?_, block.cleared_clear⟩
    have listed : h ∈ (m.directory v).handles := Directory.mem_handles.mpr ⟨index, entry⟩
    rw [clear, Arena.clearMapped_eq, Arena.get?_clearAll, if_pos listed, found, Option.map_some]
  unmapped h nowhere := by
    have unlisted : h ∉ (m.directory v).handles := by
      intro listed
      obtain ⟨index, entry⟩ := Directory.mem_handles.mp listed
      exact nowhere index entry
    rw [clear, Arena.clearMapped_eq, Arena.get?_clearAll, if_neg unlisted]

/-- In whatever order the directory of a view is gone through, clearing the view resets the blocks that it maps and
    leaves all others, and the result is the same; clearing it again, in whatever order, changes nothing. -/
theorem clear_resets (m : Memory L) (v : View) {order : List Handle} (walk : order.Perm (m.directory v).handles) :
    m.Cleared v (m.clearAll order) ∧ m.clearAll order = m.clear v ∧
      ∀ again : List Handle, again.Perm ((m.clearAll order).directory v).handles →
        (m.clearAll order).clearAll again = m.clearAll order := by
  have same : m.clearAll order = m.clear v := by
    have arena : m.arena.clearAll order = m.arena.clearAll (m.directory v).handles :=
      Arena.clearAll_congr (fun h => walk.mem_iff) m.arena
    rw [clearAll, arena]
    rfl
  refine ⟨?_, same, ?_⟩
  · rw [same]
    exact m.clear_cleared v
  · intro again walkAgain
    rw [clearAll, directory_with_arena] at walkAgain
    have arena : (m.arena.clearAll order).clearAll again = (m.arena.clearAll order).clearAll order :=
      Arena.clearAll_congr (fun h => walkAgain.mem_iff.trans walk.mem_iff.symm) _
    rw [Arena.clearAll_clearAll] at arena
    simp only [clearAll, arena]

section
open Fusion.Toy

/-- Two bytes with code, over memory or over firmware. -/
def translation (writable : Bool) : CodeCache Stub :=
  ((CodeCache.ofContents #[0x74, 3] writable).insert 0 tree).get rfl

/-- Memory with its storage under two aliases, a code cache with code over memory and one over firmware, firmware
    itself, and a block that only the other view maps; one entry dangles. -/
def crowd : Memory Stub where
  arena := ⟨#[.lazy (.touched #[1, 2, 3]), .cache (translation true), .cache (translation false),
    .rom (.ofImage [0xEA]), .lazy (.touched #[4])]⟩
  physical := (((((Directory.empty.place 0 ⟨0⟩).place 1 ⟨1⟩).place 2 ⟨2⟩).place 3 ⟨3⟩).place 4 ⟨0⟩).place 5 ⟨9⟩
  linear := Directory.empty.place 0 ⟨4⟩

/-- Another order, in which the aliases are the first and the last. -/
def shuffled : List Handle := [⟨0⟩, ⟨9⟩, ⟨3⟩, ⟨2⟩, ⟨1⟩, ⟨0⟩]

theorem crowd_resets :
    shuffled.Perm (crowd.directory .physical).handles ∧ shuffled ≠ (crowd.directory .physical).handles ∧
      (crowd.clearAll shuffled).arena = ⟨#[.lazy (.untouched 3), .fresh, .cache (.ofContents #[0x74, 3] false),
        .rom (.ofImage [0xEA]), .lazy (.touched #[4])]⟩ ∧
      (crowd.clear .physical).arena.get? ⟨4⟩ = some (.lazy (.touched #[4])) ∧
      (crowd.clearAll shuffled).clearAll shuffled = crowd.clearAll shuffled := by
  have walk : shuffled.Perm (crowd.directory .physical).handles := by decide
  obtain ⟨cleared, same, again⟩ := clear_resets crowd .physical walk
  refine ⟨walk, by decide, ?_, ?_, again shuffled walk⟩
  · decide +kernel
  · have alone : (crowd.clearAll shuffled).arena.get? ⟨4⟩ = crowd.arena.get? ⟨4⟩ := by
      apply cleared.unmapped
      intro index entry
      have listed : (⟨4⟩ : Handle) ∈ (crowd.directory .physical).handles := Directory.mem_handles.mpr ⟨index, entry⟩
      revert listed
      decide
    rw [← same, alone]
    rfl

end

end Memory

end GuestMemory
