import GuestMemory.Memory.Basic
import GuestMemory.Proofs.Memory.Related
import Mathlib.Data.List.Nodup
import Mathlib.Tactic.SplitIfs

/-!
Changes of the memory map. Each one is carried out on conditions that can be told from its arguments, and then
comes to one thing (`map_eq_ok`, `loadRom_eq_ok`, ...). The blocks of a firmware image are mapped one after the
other; the check that is made before that lets through exactly the images of which no block is refused
(`mapBlocks_eq`, `mapBlocks_refused`), and then they are in new slots, in their order, at successive indices
(`shareImage_shared`).
-/
namespace GuestMemory.Memory

variable {L : Type} [CodeUnit L] {m after : Memory L}

/-! ### Conditions -/

theorem mapShared_eq_ok {index : Nat} {block : Block L} {h : Handle} :
    m.mapShared index block = .ok (h, after) ↔ index < blockCount ∧ m.share index block = (h, after) := by
  rw [mapShared]
  split_ifs with inside
  · simp [inside]
  · simp [inside]

theorem map_eq_ok {v : View} {index : Nat} {h : Handle} {before : Option Handle} :
    m.map v index h = .ok (before, after) ↔ index < blockCount ∧
      (m.directory v).handleForIndex index = before ∧ m.setDirectory v ((m.directory v).place index h) = after := by
  rw [map, Directory.map]
  split_ifs with inside
  · simp [inside, Except.map]
  · simp [inside, Except.map]

theorem replaceBlocks_eq_ok {old new : Handle} {count : Nat} :
    m.replaceBlocks old new = .ok (count, after) ↔ (∃ block, m.arena.get? new = some block) ∧
      m.physical.redirectedCount old new + m.linear.redirectedCount old new = count ∧
      ⟨m.arena, m.physical.redirect old new, m.linear.redirect old new⟩ = after := by
  rw [replaceBlocks]
  cases m.arena.get? new with
  | none => simp
  | some block => simp

theorem loadRom_eq_ok {base : Address} {image : List UInt8} {hs : List Handle} :
    m.loadRom base image = .ok (hs, after) ↔ base.blockOffset = 0 ∧
      base.blockIndex + imageBlocks image.length ≤ blockCount ∧ m.shareImage base.blockIndex image = (hs, after) := by
  rw [loadRom]
  split_ifs with misaligned past
  · simp [misaligned]
  · simp [Nat.not_le.mpr past]
  · simp [not_not.mp misaligned, Nat.le_of_not_lt past]

/-! ### Block by block -/

/-- An image takes up a block more than what is left of it after its first block. -/
theorem imageBlocks_cons (b : UInt8) (rest : List UInt8) :
    imageBlocks (b :: rest).length = imageBlocks ((b :: rest).drop blockSize).length + 1 := by
  simp only [imageBlocks, List.length_drop, List.length_cons, blockSize]
  omega

/-- The blocks of an image have room for it. -/
theorem le_imageBlocks_mul (length : Nat) : length ≤ imageBlocks length * blockSize := by
  simp only [imageBlocks, blockSize]
  omega

/-- Maps the blocks of an image one after the other. If one is refused, those before it stay mapped. -/
def mapBlocks (m : Memory L) (index : Nat) (image : List UInt8) : Except MemoryError (List Handle) × Memory L :=
  match image with
  | [] => (.ok [], m)
  | b :: rest =>
    let image := b :: rest
    match m.mapShared index (.rom (.padded (image.take blockSize) openBus)) with
    | .error e => (.error e, m)
    | .ok (h, m) =>
      let (later, m) := m.mapBlocks (index + 1) (image.drop blockSize)
      (later.map (h :: ·), m)
termination_by image.length
decreasing_by
  rw [List.length_drop]
  exact Nat.sub_lt (Nat.succ_pos _) (by decide)

/-- As long as all blocks have an index none of them is refused. -/
theorem mapBlocks_eq {m : Memory L} {index : Nat} {image : List UInt8}
    (inside : index + imageBlocks image.length ≤ blockCount) :
    m.mapBlocks index image = (.ok (m.shareImage index image).1, (m.shareImage index image).2) := by
  fun_induction Memory.shareImage m index image with
  | case1 => rw [mapBlocks]
  | case2 m index b rest image h between shared later after copied ih =>
    rw [imageBlocks_cons, Nat.add_comm _ 1, ← Nat.add_assoc] at inside
    have here : index < blockCount := Nat.lt_of_lt_of_le (Nat.lt_succ_self index) (Nat.le_of_add_right_le inside)
    rw [mapBlocks, mapShared_eq_ok.mpr ⟨here, shared⟩]
    dsimp only
    rw [ih inside, copied]
    rfl

/-- Otherwise the first one past the end of the address space is. -/
theorem mapBlocks_refused (image : List UInt8) :
    ∀ {m : Memory L} {index : Nat}, index ≤ blockCount → blockCount < index + imageBlocks image.length →
      (m.mapBlocks index image).1 = .error (.indexOutOfRange blockCount) := by
  intro m index start outside
  fun_induction Memory.mapBlocks m index image with
  | case1 => exact absurd outside (Nat.not_lt.mpr start)
  | case2 m index b rest image e refused =>
    rw [mapShared] at refused
    split at refused
    · cases refused
    · rename_i last
      obtain rfl : index = blockCount := Nat.le_antisymm start (Nat.le_of_not_lt last)
      exact congrArg Except.error (Except.error.inj refused).symm
  | case3 m index b rest image h between shared later after mapped ih =>
    rw [imageBlocks_cons, Nat.add_comm _ 1, ← Nat.add_assoc] at outside
    have failed := ih (mapShared_eq_ok.mp shared).1 outside
    rw [mapped] at failed
    dsimp only at failed ⊢
    rw [failed]
    rfl

/-! ### The memory after -/

/-- The part of an image that its `k`-th block holds. -/
def imageBlock (image : List UInt8) (k : Nat) : List UInt8 := (image.drop (k * blockSize)).take blockSize

theorem imageBlock_zero (image : List UInt8) : imageBlock image 0 = image.take blockSize := by
  rw [imageBlock, Nat.zero_mul, List.drop_zero]

theorem imageBlock_drop (image : List UInt8) (k : Nat) :
    imageBlock (image.drop blockSize) k = imageBlock image (k + 1) := by
  rw [imageBlock, imageBlock, List.drop_drop, Nat.succ_mul, Nat.add_comm]

theorem getElem?_imageBlock (image : List UInt8) (k : Nat) {i : Nat} (inside : i < blockSize) :
    (imageBlock image k)[i]? = image[k * blockSize + i]? := by
  rw [imageBlock, List.getElem?_take, if_pos inside, List.getElem?_drop]

theorem directory_share (m : Memory L) (index : Nat) (block : Block L) (v : View) :
    (m.share index block).2.directory v = (m.directory v).place index ⟨m.arena.size⟩ := by
  cases v <;> rfl

/-- The blocks of the image are in new slots, in their order, and at successive indices of both views. -/
structure Shared (m : Memory L) (index : Nat) (image : List UInt8) (hs : List Handle) (after : Memory L) : Prop where
  handles : hs = (List.range' m.arena.size (imageBlocks image.length)).map Handle.mk
  size : after.arena.size = m.arena.size + imageBlocks image.length
  older : ∀ h block, m.arena.get? h = some block → after.arena.get? h = some block
  block : ∀ k < imageBlocks image.length,
    after.arena.get? ⟨m.arena.size + k⟩ = some (.rom (.padded (imageBlock image k) openBus))
  entry : ∀ v, ∀ k < imageBlocks image.length,
    (after.directory v).handleForIndex (index + k) = some ⟨m.arena.size + k⟩
  elsewhere : ∀ v other, other < index ∨ index + imageBlocks image.length ≤ other →
    (after.directory v).handleForIndex other = (m.directory v).handleForIndex other

namespace Shared

variable {index k : Nat} {image : List UInt8} {hs : List Handle} {h : Handle}

theorem nil (m : Memory L) (index : Nat) : m.Shared index [] [] m where
  handles := rfl
  size := rfl
  older _ _ found := found
  block k inside := absurd inside (Nat.not_lt_zero k)
  entry _ k inside := absurd inside (Nat.not_lt_zero k)
  elsewhere _ _ _ := rfl

/-- The first block, and after it what is left of the image. -/
theorem cons (count : imageBlocks image.length = imageBlocks (image.drop blockSize).length + 1)
    (rest : (m.share index (.rom (.padded (image.take blockSize) openBus))).2.Shared (index + 1) (image.drop blockSize)
      hs after) : m.Shared index image (⟨m.arena.size⟩ :: hs) after := by
  have size : (m.share index (.rom (.padded (image.take blockSize) openBus))).2.arena.size = m.arena.size + 1 :=
    Array.size_push _
  obtain ⟨handles, total, older, block, entry, elsewhere⟩ := rest
  rw [size] at handles total block entry
  simp only [directory_share, Directory.handleForIndex, Directory.place, Table.find?_insert] at elsewhere
  refine ⟨?_, ?_, ?_, ?_, ?_, ?_⟩
  · rw [count, List.range'_succ, List.map_cons, handles]
  · omega
  · intro h block found
    exact older h block (Arena.get?_insert_of_some found _)
  · intro k inside
    cases k with
    | zero =>
      rw [imageBlock_zero]
      refine older ⟨m.arena.size⟩ _ ?_
      exact (Arena.get?_insert m.arena _ _).trans (if_pos rfl)
    | succ k =>
      have there := block k (by omega)
      rwa [imageBlock_drop, Nat.add_assoc, Nat.add_comm 1] at there
  · intro v k inside
    cases k with
    | zero => exact (elsewhere v index (.inl (Nat.lt_succ_self index))).trans (if_pos rfl)
    | succ k =>
      have there := entry v k (by omega)
      rwa [Nat.add_assoc, Nat.add_comm 1, Nat.add_assoc, Nat.add_comm 1] at there
  · intro v other outside
    exact (elsewhere v other (by omega)).trans (if_neg (by omega))

theorem length (shared : m.Shared index image hs after) : hs.length = imageBlocks image.length := by
  rw [shared.handles, List.length_map, List.length_range']

theorem getElem?_handles (shared : m.Shared index image hs after) (inside : k < imageBlocks image.length) :
    hs[k]? = some ⟨m.arena.size + k⟩ := by
  rw [shared.handles, List.getElem?_map, List.getElem?_range' inside, Nat.one_mul]
  rfl

theorem of_getElem? (shared : m.Shared index image hs after) (issued : hs[k]? = some h) :
    k < imageBlocks image.length ∧ h = ⟨m.arena.size + k⟩ := by
  have inside := shared.length ▸ (List.getElem?_eq_some_iff.mp issued).1
  rw [shared.getElem?_handles inside] at issued
  exact ⟨inside, (Option.some.inj issued).symm⟩

theorem mem_handles (shared : m.Shared index image hs after) :
    h ∈ hs ↔ m.arena.size ≤ h.index ∧ h.index < m.arena.size + imageBlocks image.length := by
  obtain ⟨slot⟩ := h
  simp only [shared.handles, List.mem_map, List.mem_range'_1, Handle.mk.injEq, exists_eq_right]

theorem distinct (shared : m.Shared index image hs after) : hs.Nodup := by
  rw [shared.handles]
  refine List.Nodup.map ?_ (List.nodup_range' ..)
  rintro _ _ ⟨⟩
  rfl

theorem fresh (shared : m.Shared index image hs after) (issued : h ∈ hs) : m.arena.get? h = none :=
  Array.getElem?_eq_none (shared.mem_handles.mp issued).1

/-- A slot that is not a new one is what it was, also where there is none. -/
theorem get?_of_not_mem (shared : m.Shared index image hs after) (other : h ∉ hs) :
    after.arena.get? h = m.arena.get? h := by
  cases found : m.arena.get? h with
  | some block => exact shared.older h block found
  | none =>
    have outside : m.arena.size ≤ h.index := Array.getElem?_eq_none_iff.mp found
    rw [shared.mem_handles] at other
    refine Array.getElem?_eq_none ?_
    show after.arena.size ≤ h.index
    have size := shared.size
    omega

end Shared

theorem shareImage_shared (m : Memory L) (index : Nat) (image : List UInt8) :
    m.Shared index image (m.shareImage index image).1 (m.shareImage index image).2 := by
  fun_induction Memory.shareImage m index image with
  | case1 m index => exact .nil m index
  | case2 m index b rest image h between shared later after copied ih =>
    obtain ⟨rfl, rfl⟩ := Prod.mk.inj shared
    rw [copied] at ih
    exact ih.cons (imageBlocks_cons b rest)

end GuestMemory.Memory
