import GuestMemory.Proofs.Block.Recipe
import GuestMemory.Proofs.Machine.Wiring
import GuestMemory.Proofs.Memory.Flat

/-!
Loading of firmware images. An image is mapped as a whole, or nothing changes. Where it is mapped, both views show
the image, followed by open bus up to the end of its last block, and show elsewhere what they showed before
(`loadRom_whole_or_nothing`). That takes for granted that no entry of theirs was waiting for one of the new slots:
such an entry leads to firmware from then on (`waitingMachine_shows_firmware`).
-/
namespace GuestMemory

open Fusion

variable {S L P : Type} [CodeUnit L]

namespace Memory

/-- The `k`-th block of the image is in the slot of the `k`-th handle. Both views show the image from `base` on, and
    after it open bus up to the end of the last block. At all other addresses they lead to the slots that they led
    to before, and show the same bytes, except for entries that were waiting for one of the new slots. -/
structure Loaded (m : Memory L) (base : Address) (image : List UInt8) (hs : List Handle) (after : Memory L) : Prop where
  count : hs.length = imageBlocks image.length
  distinct : hs.Nodup
  fresh : ∀ h ∈ hs, m.arena.get? h = none
  size : after.arena.size = m.arena.size + hs.length
  older : ∀ h block, m.arena.get? h = some block → after.arena.get? h = some block
  block : ∀ k h, hs[k]? = some h → after.arena.get? h = some (.rom (.padded (imageBlock image k) openBus))
  within : base.toNat + hs.length * blockSize ≤ addressSpaceBytes
  entry : ∀ v, ∀ i < hs.length * blockSize,
    (after.directory v).handleAt (base + UInt32.ofNat i) = hs[i / blockSize]?
  byte : ∀ v i x, image[i]? = some x → after.getByte v (base + UInt32.ofNat i) = x
  padding : ∀ v i, image.length ≤ i → i < hs.length * blockSize → after.getByte v (base + UInt32.ofNat i) = openBus
  elsewhere : ∀ v a, (∀ i < hs.length * blockSize, a ≠ base + UInt32.ofNat i) →
    (after.directory v).handleAt a = (m.directory v).handleAt a
  kept : ∀ v a, (∀ i < hs.length * blockSize, a ≠ base + UInt32.ofNat i) →
    (∀ h ∈ hs, (m.directory v).handleAt a ≠ some h) → after.getByte v a = m.getByte v a
  waiting : ∀ v a k h, (∀ i < hs.length * blockSize, a ≠ base + UInt32.ofNat i) → hs[k]? = some h →
    (m.directory v).handleAt a = some h →
    m.getByte v a = openBus ∧ after.getByte v a = (imageBlock image k)[a.blockOffset]?.getD openBus

namespace Shared

variable {m after : Memory L} {index : Nat} {image : List UInt8} {hs : List Handle} {h : Handle} {k : Nat} {v : View}
  {a : Address}

/-- Whatever entry leads to a new slot shows the part of the image in it, and open bus after that. -/
theorem getByte (shared : m.Shared index image hs after) (inside : k < imageBlocks image.length)
    (mapped : (after.directory v).handleAt a = some ⟨m.arena.size + k⟩) :
    after.getByte v a = (imageBlock image k)[a.blockOffset]?.getD openBus := by
  rw [getByte_eq, Arena.byteAt_of_get? mapped (shared.block k inside)]
  show (RomBlock.padded (imageBlock image k) openBus).contents[a.blockOffset]?.getD openBus = _
  rw [RomBlock.getElem?_padded _ _ a.blockOffset_lt, Option.getD_some]

theorem getByte_of_not_mem (shared : m.Shared index image hs after)
    (same : (after.directory v).handleAt a = (m.directory v).handleAt a)
    (other : ∀ h ∈ hs, (m.directory v).handleAt a ≠ some h) : after.getByte v a = m.getByte v a := by
  rw [getByte_eq, getByte_eq, Arena.byteAt, Arena.byteAt, Directory.cell?, same, Directory.cell?]
  cases mapped : (m.directory v).handleAt a with
  | none => rfl
  | some h =>
    have kept := shared.get?_of_not_mem fun issued => other h issued mapped
    simp only [Option.map_some, Option.bind_some, Arena.peek, kept]

end Shared

section
variable {m after : Memory L} {base : Address} {image : List UInt8} {hs : List Handle} {v : View} {i : Nat}

theorem Shared.entry_add (shared : m.Shared base.blockIndex image hs after) (aligned : base.blockOffset = 0)
    (inside : base.toNat + imageBlocks image.length * blockSize ≤ addressSpaceBytes)
    (short : i < imageBlocks image.length * blockSize) :
    (after.directory v).handleAt (base + UInt32.ofNat i) = some ⟨m.arena.size + i / blockSize⟩ := by
  have place := (Address.place_add aligned (i := i) (by omega)).1
  rw [Directory.handleAt, place]
  exact shared.entry v _ (Nat.div_lt_of_lt_mul (Nat.mul_comm .. ▸ short))

theorem Shared.getByte_add (shared : m.Shared base.blockIndex image hs after) (aligned : base.blockOffset = 0)
    (inside : base.toNat + imageBlocks image.length * blockSize ≤ addressSpaceBytes)
    (short : i < imageBlocks image.length * blockSize) :
    after.getByte v (base + UInt32.ofNat i) = image[i]?.getD openBus := by
  have offset := (Address.place_add aligned (i := i) (by omega)).2
  have block : i / blockSize < imageBlocks image.length := Nat.div_lt_of_lt_mul (Nat.mul_comm .. ▸ short)
  rw [shared.getByte block (shared.entry_add aligned inside short), offset,
    getElem?_imageBlock _ _ (Nat.mod_lt _ (by decide)), Nat.div_add_mod']

/-- An address past all blocks of the image, or before them, is at an index of neither of them. -/
theorem Shared.handleAt_of_outside (shared : m.Shared base.blockIndex image hs after) (aligned : base.blockOffset = 0)
    {a : Address} (outside : ∀ i < imageBlocks image.length * blockSize, a ≠ base + UInt32.ofNat i) :
    (after.directory v).handleAt a = (m.directory v).handleAt a := by
  refine shared.elsewhere v _ ?_
  by_contra hit
  rw [not_or, Nat.not_lt, Nat.not_le] at hit
  have start := base.index_mul_add_offset
  have there := a.index_mul_add_offset
  have low := a.blockOffset_lt
  have bound := a.toNat_lt
  simp only [blockSize] at start there low outside
  refine outside (a.toNat - base.toNat) (by omega) (UInt32.toNat_inj.mp ?_)
  rw [Address.toNat_add_of_lt (by rw [addressSpaceBytes]; omega)]
  omega

theorem Shared.loaded (shared : m.Shared base.blockIndex image hs after) (aligned : base.blockOffset = 0)
    (fits : base.blockIndex + imageBlocks image.length ≤ blockCount) : m.Loaded base image hs after := by
  have inside : base.toNat + imageBlocks image.length * blockSize ≤ addressSpaceBytes := by
    rw [← base.index_mul_add_offset, aligned, Nat.add_zero, ← Nat.add_mul, ← blockCount_mul_blockSize]
    exact Nat.mul_le_mul_right _ fits
  have length := shared.length
  constructor
  case count => exact length
  case distinct => exact shared.distinct
  case fresh => exact fun h => shared.fresh
  case size => rw [length, shared.size]
  case older => exact shared.older
  case block =>
    intro k h issued
    obtain ⟨short, rfl⟩ := shared.of_getElem? issued
    exact shared.block k short
  case within => rwa [length]
  case byte =>
    intro v i x found
    have short := Nat.lt_of_lt_of_le (List.getElem?_eq_some_iff.mp found).1 (le_imageBlocks_mul image.length)
    rw [shared.getByte_add aligned inside short, found, Option.getD_some]
  all_goals rw [length]
  case entry =>
    intro v i short
    rw [shared.entry_add aligned inside short]
    exact (shared.getElem?_handles (Nat.div_lt_of_lt_mul (Nat.mul_comm .. ▸ short))).symm
  case padding =>
    intro v i past short
    rw [shared.getByte_add aligned inside short, List.getElem?_eq_none past, Option.getD_none]
  case elsewhere => exact fun v a => shared.handleAt_of_outside aligned
  case kept => exact fun v a outside => shared.getByte_of_not_mem (shared.handleAt_of_outside aligned outside)
  case waiting =>
    intro v a k h outside issued mapped
    obtain ⟨short, rfl⟩ := shared.of_getElem? issued
    have none := shared.fresh (List.mem_of_getElem? issued)
    refine ⟨?_, shared.getByte short ((shared.handleAt_of_outside aligned outside).trans mapped)⟩
    refine getByte_of_not_backed ?_
    rintro ⟨h', block, mapped', found, _⟩
    obtain rfl := Option.some.inj (mapped.symm.trans mapped')
    rw [none] at found
    cases found

end

end Memory

namespace Machine

variable [Executes L P]

theorem step_loadRom (config : Config) (t : Toolchain S L) (m : Machine S L P) {base : Address} {image : List UInt8}
    (aligned : base.blockOffset = 0) (fits : base.blockIndex + Memory.imageBlocks image.length ≤ blockCount) :
    m.step config t (.loadRom base image) = (.handles (m.memory.shareImage base.blockIndex image).1,
      m.withMemory (m.memory.shareImage base.blockIndex image).2) := by
  rw [step, Memory.loadRom_eq_ok.mpr ⟨aligned, fits, rfl⟩, answer]

/-- An image is loaded as a whole, or nothing changes. The first happens exactly if the base is the start of a block and
    the image ends within the address space; then its blocks can be mapped one after the other, and otherwise one of
    them could not. -/
theorem loadRom_whole_or_nothing (config : Config) (t : Toolchain S L) (m : Machine S L P) (base : Address)
    (image : List UInt8) :
    (base.blockOffset ≠ 0 → m.step config t (.loadRom base image) = (.error (.misaligned base), m)) ∧
    (base.blockOffset = 0 → blockCount < base.blockIndex + Memory.imageBlocks image.length →
      m.step config t (.loadRom base image) = (.error (.indexOutOfRange blockCount), m) ∧
        (m.memory.mapBlocks base.blockIndex image).1 = .error (.indexOutOfRange blockCount)) ∧
    (base.blockOffset = 0 → base.blockIndex + Memory.imageBlocks image.length ≤ blockCount →
      ∃ hs after, m.step config t (.loadRom base image) = (.handles hs, m.withMemory after) ∧
        m.memory.mapBlocks base.blockIndex image = (.ok hs, after) ∧ m.memory.Loaded base image hs after) := by
  refine ⟨fun misaligned => ?_, fun aligned past => ⟨?_, ?_⟩, fun aligned fits => ?_⟩
  · rw [step, Memory.loadRom, if_pos misaligned, answer]
  · rw [step, Memory.loadRom, if_neg (not_not_intro aligned), if_pos past, answer]
  · exact Memory.mapBlocks_refused image (Nat.le_of_lt base.blockIndex_lt) past
  · exact ⟨_, _, step_loadRom config t m aligned fits, Memory.mapBlocks_eq fits,
      (m.memory.shareImage_shared _ image).loaded aligned fits⟩

section
open Toy

/-- Two blocks below the end of the address space: the second one holds a single byte, and there is no room for a
    third. -/
theorem loadRom_to_the_end :
    ∃ h last after,
      (bareMachine.step {} toolchain (.loadRom 0xFFFFE000 (List.replicate 4097 0x90))).1 = .handles [h, last] ∧
      bareMachine.memory.Loaded 0xFFFFE000 (List.replicate 4097 0x90) [h, last] after ∧
      after.getByte .linear 0xFFFFF000 = 0x90 ∧ after.getByte .physical 0xFFFFF001 = openBus ∧
      bareMachine.step {} toolchain (.loadRom 0xFFFFE000 (List.replicate 8193 0x90)) =
        (.error (.indexOutOfRange blockCount), bareMachine) := by
  have two : Memory.imageBlocks (List.replicate 4097 (0x90 : UInt8)).length = 2 := by rw [List.length_replicate]; rfl
  have three : Memory.imageBlocks (List.replicate 8193 (0x90 : UInt8)).length = 3 := by rw [List.length_replicate]; rfl
  obtain ⟨hs, after, answered, _, loaded⟩ := (loadRom_whole_or_nothing {} toolchain bareMachine 0xFFFFE000
    (List.replicate 4097 0x90)).2.2 (by decide) (by rw [two]; decide)
  have past := (loadRom_whole_or_nothing {} toolchain bareMachine 0xFFFFE000 (List.replicate 8193 0x90)).2.1
    (by decide) (by rw [three]; decide)
  obtain ⟨h, last, rfl⟩ := List.length_eq_two.mp (loaded.count.trans two)
  have byte := loaded.byte .linear 4096 0x90 (by rw [List.getElem?_replicate, if_pos (by decide)])
  have padding := loaded.padding .physical 4097 (Nat.le_of_eq List.length_replicate) (by decide : 4097 < 2 * blockSize)
  refine ⟨h, last, after, by rw [answered], loaded, byte, padding, past.1⟩

/-- An entry that waits for a slot. -/
def waitingMachine : Machine Unit Stub Count := bareMachine.run {} toolchain [.map .physical 5 ⟨0⟩]

/-- Firmware that is loaded somewhere else is seen there from then on. -/
theorem waitingMachine_shows_firmware :
    (waitingMachine.step {} toolchain (.loadRom 0 [0x12])).1 = .handles [⟨0⟩] ∧
      (∀ i < blockSize, (0x5000 : Address) ≠ 0 + UInt32.ofNat i) ∧
      waitingMachine.memory.getByte .physical 0x5000 = 0xFF ∧
      (waitingMachine.step {} toolchain (.loadRom 0 [0x12])).2.memory.getByte .physical 0x5000 = 0x12 ∧
      ¬ ∀ v a, (∀ i < blockSize, a ≠ 0 + UInt32.ofNat i) →
        (waitingMachine.step {} toolchain (.loadRom 0 [0x12])).2.memory.getByte v a =
          waitingMachine.memory.getByte v a := by
  have shared := waitingMachine.memory.shareImage_shared (0 : Address).blockIndex [0x12]
  have fits : (0 : Address).blockIndex + Memory.imageBlocks [(0x12 : UInt8)].length ≤ blockCount := by decide
  have answered := step_loadRom {} toolchain waitingMachine rfl fits
  have outside : ∀ i < blockSize, (0x5000 : Address) ≠ 0 + UInt32.ofNat i := by
    intro i short same
    have equal := congrArg UInt32.toNat same
    rw [blockSize] at short
    rw [Address.toNat_add_of_lt (Nat.lt_of_lt_of_le (Nat.add_lt_add_left short _) (by decide))] at equal
    exact absurd equal (Nat.ne_of_gt (Nat.lt_of_lt_of_le (Nat.add_lt_add_left short _) (by decide)))
  obtain ⟨before, after⟩ := (shared.loaded rfl fits).waiting .physical 0x5000 0 ⟨0⟩
    (by rw [shared.length]; exact outside) (shared.getElem?_handles (by decide)) rfl
  rw [answered, shared.handles]
  refine ⟨rfl, outside, before, after, fun same => ?_⟩
  have unchanged := same .physical 0x5000 outside
  rw [before] at unchanged
  exact absurd (after.symm.trans unchanged) (by decide)

end

end Machine

end GuestMemory
