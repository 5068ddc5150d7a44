import GuestMemory.Proofs.Block.Recipe
import GuestMemory.Proofs.Fusion.Toy
import GuestMemory.Proofs.Machine.Effect
import GuestMemory.Proofs.Memory.Bytewise
import GuestMemory.Proofs.Memory.Flat
import GuestMemory.Proofs.Memory.Reads

/-!
Accesses that run past the addresses of a block. No access is checked against the end of those addresses:
it goes byte by byte because the block rejects what runs past its own size. So the accesses of a run are
split where they should be exactly if no block is longer than its addresses (`straddling_iff`). Every way
to make a block sees to that, but for the one that takes over contents of any length; and whatever is done
to blocks afterwards makes none of them longer (`Reached.fitting`).
-/
namespace GuestMemory

open Fusion

variable {S L P : Type} [CodeUnit L]

/-! ### What is done to blocks -/

namespace Arena

/-- No block is longer than its addresses. -/
def Fitting (arena : Arena L) : Prop := ∀ h block, arena.get? h = some block → block.size ≤ blockSize

theorem fitting_empty : (empty : Arena L).Fitting := by
  intro h block found
  simp [empty, get?] at found

theorem Fitting.put {arena : Arena L} (fitting : arena.Fitting) {block : Block L} (fits : block.size ≤ blockSize)
    (h : Handle) : (arena.put h block).Fitting := by
  intro other found held
  rw [get?_put] at held
  split at held
  · obtain ⟨_, _, rfl⟩ := Option.map_eq_some_iff.mp held
    exact fits
  · exact fitting other found held

/-- What can be done to a single block by its handle. -/
inductive Handled (allowed : Recipe → Prop) (arena : Arena L) : Arena L → Prop
  | replaced {h recipe old after} (fits : allowed recipe) (done : arena.replace h recipe.make = .ok (old, after)) :
    Handled allowed arena after
  | converted {h cache after} (done : arena.toCodeCache h = .ok (cache, after)) : Handled allowed arena after
  | read {h block offset count bytes after} (found : arena.get? h = some block)
    (done : block.read offset count = .ok (bytes, after)) : Handled allowed arena (arena.put h after)
  | written {h block offset bytes after} (found : arena.get? h = some block)
    (done : block.write offset bytes = .ok after) : Handled allowed arena (arena.put h after)
  | cleared (h) : Handled allowed arena (arena.modify h Block.clear)

theorem Handled.fitting {allowed : Recipe → Prop} {arena after : Arena L} (handled : arena.Handled allowed after)
    (bounded : ∀ recipe, allowed recipe → (recipe.make : Block L).size ≤ blockSize) (fitting : arena.Fitting) :
    after.Fitting := by
  cases handled with
  | replaced fits done =>
    rw [replace] at done
    split at done
    · cases done
    · cases done
      exact fitting.put (bounded _ fits) _
  | @converted h _ _ done =>
    rw [toCodeCache] at done
    split at done
    · cases done
    · rename_i block found
      cases done
      exact fitting.put (block.size_cache_toCodeCache ▸ fitting h block found) h
  | @read h block offset count bytes _ found done =>
    rw [Block.read_eq] at done
    split at done
    · cases done
      exact fitting.put (block.size_touch ▸ fitting h block found) h
    · cases done
  | @written h block offset bytes _ found done =>
    rw [Block.write_eq] at done
    split at done
    · cases done
      exact fitting.put (block.size_patch offset bytes ▸ fitting h block found) h
    · cases done
  | cleared h =>
    intro other block held
    rw [get?_modify] at held
    split at held
    · obtain ⟨before, found, rfl⟩ := Option.map_eq_some_iff.mp held
      exact Block.size_clear_le (fitting h before found)
    · exact fitting other block held

theorem keptByAccesses_fitting : KeptByAccesses (L := L) fun x y => x.size ≤ blockSize → y.size ≤ blockSize where
  refl _ := id
  trans _ _ _ first second := second ∘ first
  touch block fits := by rwa [Block.size_touch]
  patch block _ _ _ fits := by rwa [Block.size_patch]

end Arena

/-! ### Accesses -/

namespace Memory

/-- The access is served by no single block, but goes byte by byte, each byte to the block at its own
    address. -/
structure Splits (m : Memory L) (v : View) (w : Width) (a : Address) : Prop where
  not_read : m.arena.readWithin (m.directory v) a w.size = none
  not_written : ∀ value, m.arena.writeWithin (m.directory v) a (w.encode value) = none
  get_eq : m.get v w a = (w.decode (m.getBytes v a w.size).1, (m.getBytes v a w.size).2)
  fetches : m.Fetches v a w.size (m.getBytes v a w.size).1 (m.get v w a).2
  set_eq : ∀ value, m.set v w a value = m.setBytes v a (w.encode value)
  overwrites : ∀ value, m.Overwrites v a (w.encode value) (m.set v w a value)

theorem splits_of_fitting {m : Memory L} (fitting : m.arena.Fitting) (v : View) {w : Width} {a : Address}
    (straddles : blockSize < a.blockOffset + w.size) : m.Splits v w a := by
  have not_read : m.arena.readWithin (m.directory v) a w.size = none := by
    cases accepted : m.arena.readWithin (m.directory v) a w.size with
    | none => rfl
    | some answer =>
      obtain ⟨h, block, _, found, fits, _⟩ := Arena.readWithin_eq_some.mp accepted
      exact absurd (Nat.le_trans fits (fitting h block found)) (Nat.not_le_of_lt straddles)
  have not_written : ∀ value, m.arena.writeWithin (m.directory v) a (w.encode value) = none := by
    intro value
    cases accepted : m.arena.writeWithin (m.directory v) a (w.encode value) with
    | none => rfl
    | some after =>
      obtain ⟨h, block, _, found, fits, _⟩ := Arena.writeWithin_eq_some.mp accepted
      rw [w.length_encode] at fits
      exact absurd (Nat.le_trans fits (fitting h block found)) (Nat.not_le_of_lt straddles)
  have get_eq : m.get v w a = (w.decode (m.getBytes v a w.size).1, (m.getBytes v a w.size).2) := by
    rw [get, Arena.load, not_read, Option.getD_none, getBytes_eq]
  refine ⟨not_read, not_written, get_eq, ?_, fun value => ?_, fun value => ?_⟩
  · rw [get_eq]
    exact m.getBytes_fetches v a w.size
  · rw [set, Arena.store, not_written, Option.getD_none, setBytes_eq]
  · refine overwrites_of_written (Arena.store_written fun after accepted => ?_)
    rw [not_written] at accepted
    cases accepted

end Memory

/-! ### Runs -/

/-- The block that comes with an operation. -/
def Operation.block? : Operation L → Option (Block L)
  | .install block | .mapShared _ block => some block
  | _ => none

namespace Machine

variable [Executes L P]

theorem step_fitting {m : Machine S L P} (fitting : m.memory.arena.Fitting) (config : Config) (t : Toolchain S L)
    {operation : Operation L} (fresh : ∀ block, operation.block? = some block → block.size ≤ blockSize) :
    (m.step config t operation).2.memory.arena.Fitting := by
  have requests : ∀ d a h block,
      (m.memory.arena.requestCode config t d a m.progress).2.1.get? h = some block → block.size ≤ blockSize := by
    intro d a h block found
    have related := (Arena.requestCode_requested config t d a m.memory.arena m.progress).related
      (R := fun x y => x.size ≤ blockSize → y.size ≤ blockSize) (fun _ => id)
      (fun block offset answer fits => by rwa [Block.size_withCode])
    exact related.forall fitting found
  have step := step_effect config t m operation
  cases operation with
  | loadRom base image =>
    refine (answer_grows fun hs after loaded => Memory.loadRom_grows loaded).forall ?_ fitting
    rintro _ ⟨image, fill, rfl⟩
    exact Nat.le_of_eq (RomBlock.size_padded image fill)
  | install | mapShared =>
    refine step.forall Arena.keptByAccesses_fitting (fun _ => Block.size_clear_le) ?_ requests fitting
    rintro _ rfl
    exact fresh _ rfl
  | _ =>
    exact step.forall Arena.keptByAccesses_fitting (fun _ => Block.size_clear_le) (fun _ nothing => nothing.elim)
      requests fitting

/-- The machines that are reached from a first one by operations, with any tools, and by what is done to
    single blocks, where the blocks that are brought in are made as allowed. -/
inductive Reached (allowed : Recipe → Prop) (first : Machine S L P) : Machine S L P → Prop
  | refl : Reached allowed first first
  | step {m : Machine S L P} (before : Reached allowed first m) (config : Config) (t : Toolchain S L)
    {operation : Operation L}
    (made : ∀ block, operation.block? = some block → ∃ recipe, allowed recipe ∧ recipe.make = block) :
    Reached allowed first (m.step config t operation).2
  | handled {m : Machine S L P} {arena : Arena L} (before : Reached allowed first m)
    (handled : m.memory.arena.Handled allowed arena) :
    Reached allowed first (m.withMemory { m.memory with arena })

variable {allowed : Recipe → Prop} {first m : Machine S L P}

theorem Reached.fitting (reached : Reached allowed first m)
    (bounded : ∀ recipe, allowed recipe → (recipe.make : Block L).size ≤ blockSize)
    (start : first.memory.arena.Fitting) : m.memory.arena.Fitting := by
  induction reached with
  | refl => exact start
  | step _ config t made ih =>
    refine step_fitting ih config t fun block brought => ?_
    obtain ⟨recipe, fits, rfl⟩ := made block brought
    exact bounded recipe fits
  | handled _ handled ih => exact handled.fitting bounded ih

/-- The machine in which a block is mapped for the first time. -/
theorem reached_mapShared (t : Toolchain S L) {recipe : Recipe} (fits : allowed recipe) (progress : Progress S)
    (processor : P) : Reached allowed ⟨.empty, progress, processor⟩
      (⟨(Memory.empty.share 0 recipe.make).2, progress, processor⟩ : Machine S L P) := by
  have made : ∀ block, (Operation.mapShared 0 recipe.make : Operation L).block? = some block →
      ∃ recipe, allowed recipe ∧ recipe.make = block := by
    rintro _ ⟨⟩
    exact ⟨recipe, fits, rfl⟩
  exact Reached.step .refl {} t made

/-- No block of any machine that is reached is longer than its addresses, and every access across the end of
    a block's addresses is split, exactly if no block takes over longer contents. -/
theorem straddling_iff (t : Toolchain S L) (allowed : Recipe → Prop) (progress : Progress S) (processor : P) :
    ((∀ m : Machine S L P, Reached allowed ⟨.empty, progress, processor⟩ m →
        ∀ h block, m.memory.arena.get? h = some block → block.size ≤ blockSize) ↔
      ∀ contents writable, allowed (.cacheOf contents writable) → contents.size ≤ blockSize) ∧
    ((∀ m : Machine S L P, Reached allowed ⟨.empty, progress, processor⟩ m →
        ∀ v w a, blockSize < a.blockOffset + w.size → m.memory.Splits v w a) ↔
      ∀ contents writable, allowed (.cacheOf contents writable) → contents.size ≤ blockSize) := by
  have fitting (short : ∀ contents writable, allowed (.cacheOf contents writable) → contents.size ≤ blockSize)
      {m : Machine S L P} (reached : Reached allowed ⟨.empty, progress, processor⟩ m) : m.memory.arena.Fitting := by
    refine reached.fitting (fun recipe fits => Recipe.size_make_le_iff.mpr ?_) Arena.fitting_empty
    rintro contents writable rfl
    exact short contents writable fits
  refine ⟨⟨fun bounded contents writable fits => ?_, fun short m reached => fitting short reached⟩,
    fun splits contents writable fits => Nat.le_of_not_lt fun long => ?_, fun short m reached v w a straddles => ?_⟩
  · have reached := reached_mapShared (L := L) t fits progress processor
    exact bounded _ reached ⟨0⟩ (.cache (.ofContents contents writable)) rfl
  · -- A word at the last address of the first block is served by the cache there.
    have reached := reached_mapShared (L := L) t fits progress processor
    have apart := (splits _ reached .physical .word 0xFFF (by decide)).not_read
    have short : (Block.cache (.ofContents contents writable) : Block L).size <
        Address.blockOffset 0xFFF + Width.word.size := Arena.readWithin_eq_none (h := ⟨0⟩) apart rfl rfl
    exact absurd long (Nat.not_lt_of_le (Nat.le_of_lt_succ short))
  · exact Memory.splits_of_fitting (fitting short reached) v straddles

section
open Toy

/-- A code cache that is one byte too long at the first addresses, and ordinary memory behind it. -/
def overlong : Machine Unit Stub Count :=
  run {} toolchain
    [.mapShared 0 (.cache (.ofContents (Contents.zeros (blockSize + 1)) true)), .mapShared 1 (.ram .new)]
    ⟨.empty, ⟨(), {}⟩, 0⟩

/-- The high byte of a word that is written across the end of the cache's addresses stays in the cache, and
    is not seen at its own address. -/
theorem overlong_misplaces :
    Reached (fun _ => True) ⟨.empty, ⟨(), {}⟩, 0⟩ overlong ∧
      (∃ block, overlong.memory.arena.get? ⟨0⟩ = some block ∧ ¬ block.size ≤ blockSize) ∧
      blockSize < Address.blockOffset 0xFFF + Width.word.size ∧ ¬ overlong.memory.Splits .physical .word 0xFFF ∧
      (overlong.memory.set .physical .word 0xFFF 0x1234).getByte .physical 0x1000 = 0 ∧
      (overlong.memory.setBytes .physical 0xFFF [0x34, 0x12]).getByte .physical 0x1000 = 0x12 := by
  have reached : Reached (fun _ => True) ⟨.empty, ⟨(), {}⟩, 0⟩ overlong := by
    refine .step (.step .refl {} toolchain ?_) {} toolchain ?_
    · rintro _ ⟨⟩
      exact ⟨.cacheOf (Contents.zeros (blockSize + 1)) true, trivial, rfl⟩
    · rintro _ ⟨⟩
      exact ⟨.ram, trivial, rfl⟩
  have served : (overlong.memory.arena.readWithin (overlong.memory.directory .physical) 0xFFF 2).isSome := by
    decide +kernel
  refine ⟨reached, ⟨_, rfl, ?_⟩, by decide, fun splits => ?_, by decide +kernel, by decide +kernel⟩
  · decide +kernel
  · rw [show (2 : Nat) = Width.word.size from rfl, splits.not_read] at served
    cases served

end

end Machine

end GuestMemory
