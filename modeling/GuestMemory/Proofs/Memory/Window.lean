import GuestMemory.Proofs.Memory.Flat
import GuestMemory.Proofs.Memory.Reuse
import GuestMemory.Proofs.Memory.Wiring

/-!
What a request shows to the tools. The window is put together from stored bytes, and not by reading memory;
still each of its bytes is the one that a read through the same view returns, at the address that many steps
after the start of the block (`decodeWindow_exposes`). Where no code is kept, the answer to a request is what
the tools make of that window, at the offset of the address (`requestCode_exposes`).
-/
namespace GuestMemory

open Fusion

variable {S L : Type} [CodeUnit L]

namespace Arena

/-- Behind a block of full size comes the next one, if there is one, and else nothing. -/
theorem decodeWindow_cases (arena : Arena L) (d : Directory) (a : Address) (block : Block L) :
    (∃ h next, block.size = blockSize ∧ d.handleForIndex (a.blockIndex + 1) = some h ∧ arena.get? h = some next ∧
      arena.decodeWindow d a block.contents = block.contents ++ next.contents) ∨
    ((∀ h next, block.size = blockSize → d.handleForIndex (a.blockIndex + 1) = some h → arena.get? h ≠ some next) ∧
      arena.decodeWindow d a block.contents = block.contents) := by
  rw [decodeWindow, Block.size_contents]
  by_cases full : block.size = blockSize
  · rw [if_pos full, nextContents]
    cases behind : (d.handleForIndex (a.blockIndex + 1)).bind arena.get? with
    | none =>
      refine .inr ⟨fun h next _ mapped found => ?_, Array.append_empty⟩
      rw [mapped, Option.bind_some, found] at behind
      cases behind
    | some next =>
      obtain ⟨h, mapped, found⟩ := Option.bind_eq_some_iff.mp behind
      exact .inl ⟨h, next, full, mapped, found, rfl⟩
  · rw [if_neg full]
    exact .inr ⟨fun _ _ whole => absurd whole full, rfl⟩

/-- A byte of the block that is mapped at an index is the byte at the address that far into it. -/
theorem getElem?_contents_of_mapped {arena : Arena L} {d : Directory} {a : Address} {h : Handle} {block : Block L}
    (mapped : d.handleForIndex a.blockIndex = some h) (found : arena.get? h = some block)
    (inside : a.blockOffset < block.size) :
    block.contents[a.blockOffset]? = some (arena.byteAt d a) := by
  rw [← block.size_contents] at inside
  rw [byteAt_of_get? mapped found, Array.getElem?_eq_getElem inside, Option.getD_some]

end Arena

namespace Memory

/-- The window over the block at an address shows what reads through the same view return, from the first address
    of the block on. It ends with the block, or with the next one where the block is of full size and there
    is a next one; it never comes round to the first addresses. -/
structure Exposes (m : Memory L) (v : View) (a : Address) (block : Block L) (window : Contents) : Prop where
  byte : ∀ i < window.size, window[i]? = some (m.getByte v (Address.blockBase a.blockIndex + UInt32.ofNat i))
  joined : ∀ h next, block.size = blockSize → (m.directory v).handleForIndex (a.blockIndex + 1) = some h →
    m.arena.get? h = some next → window.size = block.size + next.size
  alone : (∀ h next, block.size = blockSize → (m.directory v).handleForIndex (a.blockIndex + 1) = some h →
    m.arena.get? h ≠ some next) → window.size = block.size
  inside : a.blockIndex * blockSize + window.size ≤ addressSpaceBytes

variable {m : Memory L} {v : View} {a : Address} {h : Handle} {block : Block L}

/-- The byte that many steps after the start of a block, as long as the steps stay in the address space. -/
theorem getByte_blockBase {index i : Nat} (inside : index * blockSize + i < addressSpaceBytes)
    (mapped : (m.directory v).handleForIndex (index + i / blockSize) = some h) (found : m.arena.get? h = some block)
    (short : i % blockSize < block.size) :
    block.contents[i % blockSize]? = some (m.getByte v (Address.blockBase index + UInt32.ofNat i)) := by
  have below : index < blockCount := by
    simp only [blockSize, blockCount, addressSpaceBytes] at inside ⊢
    omega
  have start : (Address.blockBase index).toNat = index * blockSize := Address.toNat_blockBase below
  have aligned : (Address.blockBase index).blockOffset = 0 := by
    rw [Address.blockOffset, start, Nat.mul_mod_left]
  have here : (Address.blockBase index).blockIndex = index := by
    rw [Address.blockIndex, start, Nat.mul_div_cancel _ (by decide)]
  obtain ⟨place, offset⟩ := Address.place_add aligned (start.symm ▸ inside)
  rw [here] at place
  rw [getByte_eq, ← offset]
  exact Arena.getElem?_contents_of_mapped (place ▸ mapped) found (offset ▸ short)

theorem decodeWindow_exposes (fitting : ∀ h block, m.arena.get? h = some block → block.size ≤ blockSize)
    (addressable : m.Addressable) (mapped : (m.directory v).handleAt a = some h) (found : m.arena.get? h = some block) :
    m.Exposes v a block (m.arena.decodeWindow (m.directory v) a block.contents) := by
  have small := fitting h block found
  have here := a.blockIndex_lt
  -- The bytes of the block itself, whatever comes after them.
  have own : ∀ i < block.size,
      block.contents[i]? = some (m.getByte v (Address.blockBase a.blockIndex + UInt32.ofNat i)) := by
    intro i short
    have low : i < blockSize := Nat.lt_of_lt_of_le short small
    have byte := @getByte_blockBase L _ m v h block a.blockIndex i
    rw [Nat.div_eq_of_lt low, Nat.mod_eq_of_lt low] at byte
    refine byte ?_ mapped found short
    simp only [blockSize, blockCount, addressSpaceBytes] at low here ⊢
    omega
  rcases m.arena.decodeWindow_cases (m.directory v) a block with
    ⟨h', next, full, mapped', found', window⟩ | ⟨nothing, window⟩
  · have later : a.blockIndex + 1 < blockCount := (addressable v _ h' mapped').1
    have small' := fitting h' next found'
    have size : (block.contents ++ next.contents).size = block.size + next.size := by
      rw [Array.size_append, Block.size_contents, Block.size_contents]
    rw [window]
    refine ⟨fun i short => ?_, fun h'' next' _ mapped'' found'' => ?_, fun nothing => ?_, ?_⟩
    · rw [size] at short
      rw [Array.getElem?_append, Block.size_contents]
      split
      · rename_i before
        exact own i before
      · rename_i after
        have byte := @getByte_blockBase L _ m v h' next a.blockIndex i
        have beyond : i / blockSize = 1 ∧ i % blockSize = i - block.size := by
          simp only [blockSize] at full small' ⊢
          omega
        rw [beyond.1, beyond.2] at byte
        refine byte ?_ mapped' found' (by omega)
        simp only [blockSize, blockCount, addressSpaceBytes] at later full small' ⊢
        omega
    · obtain rfl := Option.some.inj (mapped'.symm.trans mapped'')
      obtain rfl := Option.some.inj (found'.symm.trans found'')
      exact size
    · exact absurd found' (nothing h' next full mapped')
    · rw [size]
      simp only [blockSize, blockCount, addressSpaceBytes] at later small small' ⊢
      omega
  · rw [window]
    refine ⟨fun i short => own i (block.size_contents ▸ short), fun h' next full mapped' found' => ?_,
      fun _ => block.size_contents, ?_⟩
    · exact absurd found' (nothing h' next full mapped')
    · rw [Block.size_contents]
      simp only [blockSize, blockCount, addressSpaceBytes] at here small ⊢
      omega

/-- Where a block keeps no code for an address, a request there combines once, from the offset of the address on, over
    a window of the bytes that reads through the same view return; its answer is the result, and the tools are
    left as that leaves them. For an offset past the end of the block the tools are not asked at all. -/
theorem requestCode_exposes (fitting : ∀ h block, m.arena.get? h = some block → block.size ≤ blockSize)
    (addressable : m.Addressable) (mapped : (m.directory v).handleAt a = some h) (found : m.arena.get? h = some block)
    (absent : block.codeAt a.blockOffset = none) :
    (a.blockOffset ≤ block.size → ∃ window, m.Exposes v a block window ∧
      ∀ {S : Type} (config : Config) (t : Toolchain S L) (progress : Progress S),
        (m.requestCode config t v a progress).1 =
            (combine config t ⟨window, a.blockOffset⟩ progress).1.mapError (.noCode a) ∧
          (m.requestCode config t v a progress).2.2 =
            (combine config t ⟨window, a.blockOffset⟩ progress).2.toProgress) ∧
    (block.size < a.blockOffset →
      ∀ {S : Type} (config : Config) (t : Toolchain S L) (progress : Progress S),
        (m.requestCode config t v a progress).1 = .error (.noCode a (.decode (.outOfBounds a.blockOffset))) ∧
          (m.requestCode config t v a progress).2.2 = progress) := by
  have leads : (m.directory v).cell? a = some ⟨h, a.blockOffset⟩ := Directory.cell?_eq_some.mpr ⟨mapped, rfl⟩
  have nothing : m.arena.codeAt ⟨h, a.blockOffset⟩ = none := (Arena.codeAt_of_get? found).trans absent
  constructor
  · intro inside
    refine ⟨_, decodeWindow_exposes fitting addressable mapped found, fun config t progress => ?_⟩
    exact Arena.requestCode_of_codeAt_none leads found inside nothing config t progress
  · intro outside S config t progress
    exact Arena.requestCode_of_outside leads found outside nothing config t progress

section
open Fusion.Toy

/-- An untouched block of full size before a single byte of firmware: in the physical view they end at the end of the
    address space, in the linear one the first of them does, and the second begins at zero. -/
def edge : Memory Stub where
  arena := ⟨#[.fresh, .rom ⟨#[0xC3]⟩]⟩
  physical := (Directory.empty.place 0xFFFFE ⟨0⟩).place 0xFFFFF ⟨1⟩
  linear := (Directory.empty.place 0xFFFFF ⟨0⟩).place 0 ⟨1⟩

theorem addressable_edge : edge.Addressable := by
  intro v
  cases v with
  | physical => exact (Directory.within_empty.place (by decide) trivial).place (by decide) trivial
  | linear => exact (Directory.within_empty.place (by decide) trivial).place (by decide) trivial

/-- The window goes on into the block behind, but not from the last addresses to the first ones; two bytes into the
    single one there is nothing to decode. -/
theorem edge_exposes :
    (∀ h block, edge.arena.get? h = some block → block.size ≤ blockSize) ∧ edge.Addressable ∧
      (∃ window : Contents, window.size = 4097 ∧ window[4096]? = some 0xC3 ∧
        (edge.requestCode {} toolchain .physical 0xFFFFEFFF ⟨(), {}⟩).1 =
          (combine {} toolchain ⟨window, 0xFFF⟩ ⟨(), {}⟩).1.mapError (.noCode 0xFFFFEFFF)) ∧
      (∃ window : Contents, window.size = 4096 ∧
        (edge.requestCode {} toolchain .linear 0xFFFFFFFF ⟨(), {}⟩).1 =
          (combine {} toolchain ⟨window, 0xFFF⟩ ⟨(), {}⟩).1.mapError (.noCode 0xFFFFFFFF)) ∧
      (edge.requestCode {} toolchain .linear 2 ⟨(), {}⟩).1 = .error (.noCode 2 (.decode (.outOfBounds 2))) := by
  have fitting : ∀ h block, edge.arena.get? h = some block → block.size ≤ blockSize := by
    intro h block found
    have small : ∀ block ∈ edge.arena.slots, block.size ≤ blockSize := by decide
    exact small block (Array.mem_of_getElem? found)
  have untouched : edge.arena.get? ⟨0⟩ = some .fresh := rfl
  have firmware : edge.arena.get? ⟨1⟩ = some (.rom ⟨#[0xC3]⟩) := rfl
  obtain ⟨window, exposed, answered⟩ := (requestCode_exposes (m := edge) (v := .physical) (a := 0xFFFFEFFF)
    fitting addressable_edge rfl untouched rfl).1 (by decide)
  obtain ⟨last, exposed', answered'⟩ := (requestCode_exposes (m := edge) (v := .linear) (a := 0xFFFFFFFF)
    fitting addressable_edge rfl untouched rfl).1 (by decide)
  have beyond := (requestCode_exposes (m := edge) (v := .linear) (a := 2) fitting addressable_edge rfl firmware rfl).2
    (by decide) {} toolchain ⟨(), {}⟩
  have size : window.size = 4097 := exposed.joined ⟨1⟩ (.rom ⟨#[0xC3]⟩) rfl rfl rfl
  refine ⟨fitting, addressable_edge, ⟨window, size, ?_, (answered {} toolchain ⟨(), {}⟩).1⟩,
    ⟨last, exposed'.alone ?_, (answered' {} toolchain ⟨(), {}⟩).1⟩, beyond.1⟩
  · rw [exposed.byte 4096 (by omega)]
    decide +kernel
  · intro h next _ mapped
    cases mapped

end

end Memory

end GuestMemory
