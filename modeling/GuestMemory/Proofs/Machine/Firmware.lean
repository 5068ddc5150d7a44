import GuestMemory.Proofs.Fusion.Toy
import GuestMemory.Proofs.Machine.Effect
import GuestMemory.Proofs.Memory.Reads

/-!
Firmware is immutable. A block is firmware as a ROM block and, once code was asked for, as the read-only
code cache that it became. Accesses leave it as it is, and clears and conversions leave its bytes and keep
it firmware (`keptByAccesses_persists`); so it shows the same bytes at every later time, wherever it is
mapped by then (`firmware_immutable`).
-/
namespace GuestMemory

variable {S L P : Type} [CodeUnit L]

namespace Block

/-- A ROM block, or a read-only code cache. -/
def Firmware (block : Block L) : Prop :=
  (∃ rom, block = .rom rom) ∨ ∃ cache, block = .cache cache ∧ cache.writable = false

theorem firmware_iff {block : Block L} : block.Firmware ↔ block.isWritable = false := isWritable_eq_false.symm

theorem Firmware.touch_eq {block : Block L} (firmware : block.Firmware) : block.touch = block := by
  rcases firmware with ⟨rom, rfl⟩ | ⟨cache, rfl, _⟩ <;> rfl

theorem Firmware.clear {block : Block L} (firmware : block.Firmware) : block.clear.Firmware := by
  rw [firmware_iff, isWritable_clear, firmware_iff.mp firmware]

theorem Firmware.contents_clear {block : Block L} (firmware : block.Firmware) :
    block.clear.contents = block.contents := by
  rw [Block.contents_clear, firmware_iff.mp firmware]
  rfl

/-- `after` is firmware with the bytes of `before`, if `before` is firmware. -/
def Persists (before after : Block L) : Prop :=
  before.Firmware → after.Firmware ∧ after.contents = before.contents

theorem persists_clear (block : Block L) : block.Persists block.clear :=
  fun firmware => ⟨firmware.clear, firmware.contents_clear⟩

theorem persists_withCode (block : Block L) (offset : Nat) (answer : Except MemoryError (CodeTree L)) :
    block.Persists (.cache (block.withCode offset answer)) := by
  intro firmware
  rw [firmware_iff, isWritable_withCode]
  exact ⟨firmware_iff.mp firmware, block.contents_withCode offset answer⟩

/-- A write to firmware is dropped, and evicts nothing. -/
theorem Firmware.patch_eq {block : Block L} (firmware : block.Firmware) (offset : Nat) (bytes : List UInt8) :
    block.patch offset bytes = block := by
  rcases firmware with ⟨rom, rfl⟩ | ⟨cache, rfl, readOnly⟩
  · rfl
  · simp [patch, readOnly]

end Block

namespace Arena

theorem keptByAccesses_persists : KeptByAccesses (L := L) Block.Persists where
  refl _ firmware := ⟨firmware, rfl⟩
  trans first second third here there firmware := by
    obtain ⟨firmware', same⟩ := here firmware
    obtain ⟨firmware'', same'⟩ := there firmware'
    exact ⟨firmware'', same'.trans same⟩
  touch block firmware := by
    rw [firmware.touch_eq]
    exact ⟨firmware, rfl⟩
  patch block offset bytes _ firmware := by
    rw [firmware.patch_eq]
    exact ⟨firmware, rfl⟩

end Arena

namespace Memory

/-- The slot holds firmware with the bytes of the image, and every address that leads to the slot reads the
    byte of the image at its offset, or open bus past its end. -/
structure Shows (m : Memory L) (h : Handle) (image : Contents) : Prop where
  held : ∃ block, m.arena.get? h = some block ∧ block.Firmware ∧ block.isWritable = false ∧
    block.size = image.size ∧ block.contents = image
  byte : ∀ v a, (m.directory v).handleAt a = some h →
    (m.get v .byte a).1 = (image[a.blockOffset]?.getD openBus).toBitVec
  copied : ∀ v a count i, i < count → (m.directory v).handleAt (a + UInt32.ofNat i) = some h →
    (m.copyOut v a count).1[i]? = some (image[(a + UInt32.ofNat i).blockOffset]?.getD openBus)

theorem shows_of_get? {m : Memory L} {h : Handle} {block : Block L} (found : m.arena.get? h = some block)
    (firmware : block.Firmware) : m.Shows h block.contents := by
  refine ⟨⟨block, found, firmware, Block.firmware_iff.mp firmware, block.size_contents.symm, rfl⟩, ?_, ?_⟩
  · intro v a mapped
    rw [get_byte_eq, Arena.loadByte_byte, Arena.byteAt_of_get? mapped found]
  · intro v a count i short mapped
    rw [copyOut, Arena.copyOut_bytes, Arena.getElem?_bytesFrom, if_pos short, Arena.byteAt_of_get? mapped found]

end Memory

namespace Machine

variable [Executes L P]

/-- From the time a slot holds firmware on, whatever operations a machine goes through, the slot holds
    firmware with the same bytes, and these are what is read wherever the slot is mapped. -/
theorem firmware_immutable {m later : Machine S L P} (run : Steps (fun _ _ => True) m later) {h : Handle}
    {block : Block L} (found : m.memory.arena.get? h = some block) (firmware : block.Firmware) :
    later.memory.Shows h block.contents := by
  obtain ⟨block', found', persists⟩ := run.outlives Arena.keptByAccesses_persists Block.persists_clear
    Block.persists_withCode found
  obtain ⟨firmware', same⟩ := persists firmware
  rw [← same]
  exact Memory.shows_of_get? found' firmware'

section
open Fusion.Toy

/-- An image of a few bytes in both views. -/
def burnt : Machine Unit Stub Count :=
  run {} toolchain [.mapShared 0 (.rom ⟨window⟩)] ⟨.empty, ⟨(), {}⟩, 0⟩

/-- Its code is made and run, and then it is written through both views and cleared, twice. -/
def assaults : List (Operation Stub) :=
  [.map .linear 5 ⟨0⟩, .execute .physical 0, .set .physical .byte 0 0xCC, .copyIn .linear 0x5000 [1, 2, 3],
    .clear .linear, .request .linear 0x5000, .set .linear .word 0x5002 0, .clear .physical]

/-- The image is a read-only code cache without code in the end, and is read through its new alias. -/
theorem burnt_shows :
    burnt.memory.arena.get? ⟨0⟩ = some (.rom ⟨window⟩) ∧
      (burnt.run {} toolchain assaults).memory.arena.get? ⟨0⟩ = some (.cache (.ofContents window false)) ∧
      ((burnt.run {} toolchain assaults).memory.get .linear .byte 0x5000).1 = 0x74 ∧
      ((burnt.run {} toolchain assaults).memory.get .linear .byte 0x5007).1 = 0xFF := by
  have found : burnt.memory.arena.get? ⟨0⟩ = some (.rom ⟨window⟩) := rfl
  have shown : (burnt.run {} toolchain assaults).memory.Shows ⟨0⟩ window :=
    firmware_immutable (steps_run {} toolchain assaults .refl) found (.inl ⟨_, rfl⟩)
  have mapped : ((burnt.run {} toolchain assaults).memory.directory .linear).handleAt 0x5000 = some ⟨0⟩ := by
    decide +kernel
  have mapped' : ((burnt.run {} toolchain assaults).memory.directory .linear).handleAt 0x5007 = some ⟨0⟩ := by
    decide +kernel
  refine ⟨found, by decide +kernel, ?_, ?_⟩
  · rw [shown.byte .linear 0x5000 mapped]
    rfl
  · rw [shown.byte .linear 0x5007 mapped']
    rfl

end

end Machine

end GuestMemory
