import GuestMemory.Machine
import GuestMemory.Proofs.Fusion.Toy
import GuestMemory.Proofs.Memory.Alike

/-!
Converting a block before it is cleared. Machines whose memories cannot be told apart give the same answers
to all operations (`Alike.answers`), so a conversion that a clear takes back goes unnoticed. It is taken back
if the block is whole; a shorter block that is neither firmware nor a code cache yet becomes a whole one, and
this shows (`convert_clear_iff`).
-/
namespace GuestMemory

open Fusion

variable {S L P : Type} [CodeUnit L]

namespace Machine

/-- The same tools and processor, over memories that are alike. -/
structure Alike (m m' : Machine S L P) : Prop where
  memory : m.memory.Alike m'.memory
  progress : m.progress = m'.progress
  processor : m.processor = m'.processor

variable {m m' : Machine S L P}

theorem Alike.answer (alike : m.Alike m') {α : Type} (toAnswer : α → Answer L)
    {result result' : Except MemoryError (α × Memory L)} (same : Memory.SameResult result result') :
    (m.answer toAnswer result).1 = (m'.answer toAnswer result').1 ∧
      (m.answer toAnswer result).2.Alike (m'.answer toAnswer result').2 := by
  cases same with
  | error e => exact ⟨rfl, alike⟩
  | ok agree => exact ⟨congrArg toAnswer agree.answer, agree.memory, alike.progress, alike.processor⟩

/-! ### Slots -/

/-- The machine after the block in a slot was made a code cache. -/
def convertSlot (m : Machine S L P) (h : Handle) : Machine S L P :=
  match m.memory.arena.toCodeCache h with
  | .error _ => m
  | .ok (_, arena) => m.withMemory { m.memory with arena }

/-- The machine after the block in a slot was cleared. -/
def clearSlot (m : Machine S L P) (h : Handle) : Machine S L P :=
  m.withMemory { m.memory with arena := m.memory.arena.modify h Block.clear }

variable {h : Handle} {block : Block L}

theorem convertSlot_eq (found : m.memory.arena.get? h = some block) :
    m.convertSlot h = m.withMemory { m.memory with arena := m.memory.arena.put h (.cache block.toCodeCache) } := by
  simp only [convertSlot, Arena.toCodeCache, found]

theorem get?_clearSlot (found : m.memory.arena.get? h = some block) :
    (m.clearSlot h).memory.arena.get? h = some block.clear := by
  show (m.memory.arena.modify h Block.clear).get? h = _
  rw [Arena.get?_modify, if_pos rfl, found, Option.map_some]

theorem get?_convertSlot (found : m.memory.arena.get? h = some block) :
    (m.convertSlot h).memory.arena.get? h = some (.cache block.toCodeCache) := by
  rw [convertSlot_eq found]
  show (m.memory.arena.put h (.cache block.toCodeCache)).get? h = _
  rw [Arena.get?_put, if_pos rfl, found, Option.map_some]

theorem alike_clearSlot (found : m.memory.arena.get? h = some block) (whole : block.Whole) :
    ((m.convertSlot h).clearSlot h).Alike (m.clearSlot h) := by
  have arena : ((m.memory.arena.put h (.cache block.toCodeCache)).modify h Block.clear).Alike
      (m.memory.arena.modify h Block.clear) := by
    intro other
    rw [Arena.get?_modify, Arena.get?_modify]
    by_cases same : other = h
    · rw [if_pos same, if_pos same, Arena.get?_put, if_pos rfl, found]
      exact .some (Block.alike_clear_toCodeCache whole)
    · rw [if_neg same, if_neg same, Arena.get?_put, if_neg same]
      exact Arena.Related.refl Block.Alike.refl m.memory.arena other
  rw [convertSlot_eq found]
  exact ⟨⟨arena, rfl, rfl⟩, rfl, rfl⟩

/-! ### Operations -/

/-- Both machines are answered with the same code, or refused for the same reason. -/
theorem Alike.request (alike : m.Alike m') (config : Config) (t : Toolchain S L) (v : View) (a : Address) :
    ∃ result after after', m.request config t v a = (result, after) ∧ m'.request config t v a = (result, after') ∧
      after.Alike after' := by
  obtain ⟨same, arena, later⟩ :=
    alike.memory.arena.requestCode config t m.progress (d := m'.memory.directory v) (a := a)
  simp only [Machine.request, Memory.requestCode, alike.memory.directory, ← alike.progress]
  exact ⟨_, _, _, rfl, congrArg (·, _) same.symm,
    ⟨arena, alike.memory.physical, alike.memory.linear⟩, later, alike.processor⟩

variable [Executes L P]

theorem Alike.step (alike : m.Alike m') (config : Config) (t : Toolchain S L) (operation : Operation L) :
    (m.step config t operation).1 = (m'.step config t operation).1 ∧
      (m.step config t operation).2.Alike (m'.step config t operation).2 := by
  have memory := alike.memory
  have agrees {α : Type} {left right : α × Memory L} (agree : Memory.Agree left right) (toAnswer : α → Answer L) :
      toAnswer left.1 = toAnswer right.1 ∧ (m.withMemory left.2).Alike (m'.withMemory right.2) :=
    ⟨congrArg toAnswer agree.answer, agree.memory, alike.progress, alike.processor⟩
  cases operation with
  | install block => exact agrees (memory.install block) .handle
  | mapShared index block => exact alike.answer .handle (memory.mapShared index block)
  | loadRom base image => exact alike.answer .handles (memory.loadRom base image)
  | map v index h => exact alike.answer .displaced (memory.map v index h)
  | unmap v index => exact agrees (memory.unmap v index) .displaced
  | redirect v old new => exact agrees (memory.redirect v old new) .count
  | replaceBlocks old new => exact alike.answer .count (memory.replaceBlocks old new)
  | get v w a => exact agrees (memory.get v w a) (.value w)
  | set v w a value => exact ⟨rfl, memory.set v w a value, alike.progress, alike.processor⟩
  | copyOut v a count => exact agrees (memory.copyOut v a count) .bytes
  | copyIn v a bytes => exact ⟨rfl, memory.copyIn v a bytes, alike.progress, alike.processor⟩
  | clear v => exact ⟨rfl, memory.clear v, alike.progress, alike.processor⟩
  | request v a =>
    obtain ⟨result, after, after', left, right, alike'⟩ := alike.request config t v a
    simp only [Machine.step, left, right]
    cases result with
    | error e => exact ⟨rfl, alike'⟩
    | ok code => exact ⟨rfl, alike'⟩
  | execute v a =>
    obtain ⟨result, after, after', left, right, alike'⟩ := alike.request config t v a
    simp only [Machine.step, left, right]
    cases result with
    | error e => exact ⟨rfl, alike'⟩
    | ok code =>
      simp only [alike'.processor, true_and]
      exact ⟨alike'.memory, alike'.progress, rfl⟩

/-- What a machine answers to operations one after the other. -/
def answers (config : Config) (t : Toolchain S L) (m : Machine S L P) : List (Operation L) → List (Answer L)
  | [] => []
  | operation :: rest => (m.step config t operation).1 :: answers config t (m.step config t operation).2 rest

theorem Alike.answers (alike : m.Alike m') (config : Config) (t : Toolchain S L) (operations : List (Operation L)) :
    m.answers config t operations = m'.answers config t operations := by
  induction operations generalizing m m' with
  | nil => rfl
  | cons operation rest ih =>
    obtain ⟨same, alike'⟩ := alike.step config t operation
    rw [Machine.answers, Machine.answers, same, ih alike']

/-! ### Conversion before a clear -/

variable {h : Handle} {block : Block L}

/-- The byte behind an address of the first block, once a block is mapped there. -/
theorem answers_map_get (found : m.memory.arena.get? h = some block) (config : Config) (t : Toolchain S L)
    {a : Address} (first : a.blockIndex = 0) :
    m.answers config t [.map .physical 0 h, .get .physical .byte a] =
      [.displaced (m.memory.physical.handleForIndex 0),
        .value .byte (block.contents[a.blockOffset]?.getD openBus).toBitVec] := by
  have mapped : m.memory.map .physical 0 h = .ok (m.memory.physical.handleForIndex 0,
      { m.memory with physical := m.memory.physical.place 0 h }) := rfl
  have leads : (m.memory.physical.place 0 h).cell? a = some ⟨h, a.blockOffset⟩ := by
    refine Directory.cell?_eq_some.mpr ⟨?_, rfl⟩
    rw [Directory.handleAt, first, Directory.handleForIndex, Directory.place, Table.find?_insert, if_pos rfl]
  have byte : (m.memory.arena.loadByte (m.memory.physical.place 0 h) a).1 =
      block.contents[a.blockOffset]?.getD openBus := by
    rw [Arena.loadByte_byte, Arena.byteAt, leads, Option.bind_some, Arena.peek, found, Option.bind_some]
  simp only [answers, step, answer, mapped, withMemory, Memory.get_byte_eq, Memory.directory, byte]

/-- A block that is too short to begin with reads as zeros past its end once it was converted and cleared, and
    as open bus if it was only cleared. -/
theorem told_apart (found : m.memory.arena.get? h = some block) (part : ¬ block.Whole)
    (bounded : block.size ≤ blockSize) (config : Config) (t : Toolchain S L) : ∃ operations,
      ((m.convertSlot h).clearSlot h).answers config t operations ≠ (m.clearSlot h).answers config t operations := by
  simp only [Block.Whole, Classical.not_imp] at part
  obtain ⟨plain, writable, other⟩ := part
  have short : (0 : Address).blockOffset + block.size < blockSize := by
    have zero : (0 : Address).blockOffset = 0 := rfl
    omega
  have whole : (Block.cache block.toCodeCache).clear.size = blockSize := by
    rw [Block.size_clear, Block.isWritable_cache_toCodeCache, writable]
    rfl
  have converted : (Block.cache block.toCodeCache).clear.contents[block.size]? = some 0 := by
    rw [Block.contents_clear, Block.isWritable_cache_toCodeCache, writable, if_pos rfl, whole]
    simp [Contents.zeros, Nat.lt_of_le_of_ne bounded other]
  have cleared : block.clear.contents[block.size]? = none := by
    refine Array.getElem?_eq_none ?_
    rw [Block.size_contents, Block.size_clear, plain]
    exact Nat.le_refl _
  refine ⟨[.map .physical 0 h, .get .physical .byte (0 + UInt32.ofNat block.size)], fun same => ?_⟩
  have offset : (0 + UInt32.ofNat block.size : Address).blockOffset = block.size := by
    rw [Address.blockOffset_add short]
    exact Nat.zero_add _
  have first : (0 + UInt32.ofNat block.size : Address).blockIndex = 0 := Address.blockIndex_add short
  rw [answers_map_get (get?_clearSlot (get?_convertSlot found)) config t first,
    answers_map_get (get?_clearSlot found) config t first, offset, converted, cleared] at same
  have bytes := (List.cons.inj (List.cons.inj same).2).1
  cases bytes

/-- Converting a block before it is cleared makes no difference to any access or operation if the block is
    whole. If it is not, a later access sees the difference, and so does some run of the machine, since the
    block has grown to the size of a whole one. -/
theorem convert_clear_iff {history : List Block.Access} (found : m.memory.arena.get? h = some (block.after history)) :
    ((∀ later, (Block.cache (block.after history).toCodeCache).clear.replies later =
        (block.after history).clear.replies later) ↔ block.Whole) ∧
    (block.Whole → ∀ config t operations,
      ((m.convertSlot h).clearSlot h).answers config t operations = (m.clearSlot h).answers config t operations) ∧
    (¬ block.Whole → block.size ≤ blockSize → ∀ config t, ∃ operations,
      ((m.convertSlot h).clearSlot h).answers config t operations ≠ (m.clearSlot h).answers config t operations) := by
  have after := block.whole_after_iff history
  refine ⟨block.replies_clear_toCodeCache_iff history, fun whole config t operations => ?_,
    fun part bounded config t => ?_⟩
  · exact (alike_clearSlot found (after.mpr whole)).answers config t operations
  · exact told_apart found (mt after.mp part) (Block.size_after_le bounded history) config t

section
open Toy

/-- A block that was written once. -/
def written (recipe : Recipe) : Block Stub := recipe.make.after [.set .byte 3 0x5A]

/-- A whole block and one of sixteen bytes. -/
def unequal : Machine Unit Stub Count where
  memory := {
    arena := ⟨#[written .ram, written (.untouchedOf 16)]⟩
    physical := (Directory.empty.place 0 ⟨0⟩).place 1 ⟨1⟩
    linear := .empty }
  progress := ⟨(), {}⟩
  processor := 0

/-- No operation tells whether the whole block was converted before it was cleared. -/
theorem unequal_whole :
    unequal.memory.arena.get? ⟨0⟩ = some (written .ram) ∧
      ∀ config t operations, ((unequal.convertSlot ⟨0⟩).clearSlot ⟨0⟩).answers config t operations =
        (unequal.clearSlot ⟨0⟩).answers config t operations := by
  have found : unequal.memory.arena.get? ⟨0⟩ = some (written .ram) := by simp [unequal, Arena.get?]
  have whole : (Recipe.ram.make : Block Stub).Whole := Block.whole_make_iff.mpr (by rintro _ ⟨⟩)
  exact ⟨found, (convert_clear_iff found).2.1 whole⟩

/-- The block of sixteen bytes becomes a whole one if it is converted before it is cleared, and has zeros
    where it would be open bus if it were only cleared. -/
theorem unequal_short :
    unequal.memory.arena.get? ⟨1⟩ = some (written (.untouchedOf 16)) ∧
      ((unequal.clearSlot ⟨1⟩).memory.arena.get? ⟨1⟩).map Block.size = some 16 ∧
      (((unequal.convertSlot ⟨1⟩).clearSlot ⟨1⟩).memory.arena.get? ⟨1⟩).map Block.size = some blockSize ∧
      (unequal.clearSlot ⟨1⟩).memory.getByte .physical 0x1010 = openBus ∧
      ((unequal.convertSlot ⟨1⟩).clearSlot ⟨1⟩).memory.getByte .physical 0x1010 = 0 ∧
      ¬ ∀ later, (Block.cache (written (.untouchedOf 16)).toCodeCache).clear.replies later =
        (written (.untouchedOf 16)).clear.replies later := by
  refine ⟨rfl, by decide +kernel, by decide +kernel, by decide +kernel, by decide +kernel, fun same => ?_⟩
  have size := Block.Reply.size.inj (List.cons.inj (same [.size])).1
  revert size
  decide +kernel

end

end Machine

end GuestMemory
