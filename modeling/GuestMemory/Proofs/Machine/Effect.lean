import GuestMemory.Machine
import GuestMemory.Proofs.Memory.Map
import GuestMemory.Proofs.Memory.Request

/-!
What operations do to blocks, said once for all of them. An operation brings in new blocks, or touches
blocks by reading them, or is a write, a clear, or a request for code (`step_effect`); a block that is
there stays there, and becomes what one of these makes of it (`Effect.outlives`). Runs are operations one
after the other (`Steps`).
-/
namespace GuestMemory

open Fusion

variable {S L P : Type} [CodeUnit L]

/-! ### Blocks -/

namespace Block

/-- The block after any number of reads. -/
def Touched (before after : Block L) : Prop := after = before ∨ after = before.touch

end Block

namespace Arena

theorem keptByReads_touched : KeptByReads (L := L) Block.Touched where
  refl _ := .inl rfl
  touch _ := .inr rfl
  trans first second third := by
    rintro (rfl | rfl) (rfl | rfl)
    · exact .inl rfl
    · exact .inr rfl
    · exact .inr rfl
    · exact .inr first.touch_touch

/-- `after` is `before` with more blocks, each in a slot of its own. -/
inductive Grows (brings : Block L → Prop) (before : Arena L) : Arena L → Prop
  | refl : Grows brings before before
  | insert {after : Arena L} {block : Block L} (grows : Grows brings before after) (brought : brings block) :
    Grows brings before (after.insert block).2

variable {brings : Block L → Prop}

theorem Grows.trans {first second third : Arena L} (here : Grows brings first second)
    (there : Grows brings second third) : Grows brings first third := by
  induction there with
  | refl => exact here
  | insert _ brought ih => exact ih.insert brought

theorem Grows.get? {before after : Arena L} (grows : Grows brings before after) {h : Handle} {block : Block L}
    (found : before.get? h = some block) : after.get? h = some block := by
  induction grows with
  | refl => exact found
  | insert _ _ ih => exact get?_insert_of_some ih _

theorem Grows.mono {brings' : Block L → Prop} (weaker : ∀ block, brings block → brings' block)
    {before after : Arena L} (grows : Grows brings before after) : Grows brings' before after := by
  induction grows with
  | refl => exact .refl
  | insert _ brought ih => exact ih.insert (weaker _ brought)

theorem Grows.forall {Q : Block L → Prop} {before after : Arena L} (grows : Grows brings before after)
    (fresh : ∀ block, brings block → Q block) (holds : ∀ h block, before.get? h = some block → Q block) :
    ∀ h block, after.get? h = some block → Q block := by
  induction grows with
  | refl => exact holds
  | insert _ brought ih =>
    intro h block found
    rw [get?_insert] at found
    split at found
    · cases found
      exact fresh _ brought
    · exact ih h block found

/-- A request converts the block at its address, or changes nothing. -/
theorem Requested.related {config : Config} {t : Toolchain S L} {d : Directory} {a : Address}
    {arena : Arena L} {progress : Progress S} {result : Except MemoryError (CodeTree L) × Arena L × Progress S}
    (requested : Requested config t d a arena progress result) {R : Block L → Block L → Prop}
    (refl : ∀ block, R block block) (convert : ∀ block offset answer, R block (.cache (block.withCode offset answer))) :
    Related R arena result.2.1 := by
  cases requested with
  | unmapped _ | unknown _ _ | reused _ _ _ => exact .refl refl arena
  | failed _ found _ _ | made _ found _ _ => exact related_put refl found (convert _ _ _)

end Arena

/-! ### Operations -/

namespace Operation

/-- Operations that do not write, clear or ask for code. -/
def Quiet : Operation L → Prop
  | .set .. | .copyIn .. | .clear _ | .request .. | .execute .. => False
  | _ => True

/-- The blocks that an operation can bring in. -/
def Brings : Operation L → Block L → Prop
  | .install block, brought | .mapShared _ block, brought => brought = block
  | .loadRom .., brought => ∃ rom, brought = .rom rom
  | _, _ => False

/-- The place whose code an operation asks for. -/
def place? : Operation L → Option (View × Address)
  | .request v a | .execute v a => some (v, a)
  | _ => none

end Operation

/-! ### Memory maps

Mapping changes which addresses lead to a block, and no block.
-/

namespace Memory

@[simp] theorem arena_setDirectory (m : Memory L) (v : View) (d : Directory) :
    (m.setDirectory v d).arena = m.arena := by
  cases v <;> rfl

variable {m : Memory L}

theorem map_arena {v : View} {index : Nat} {h : Handle} {before : Option Handle} {after : Memory L}
    (mapped : m.map v index h = .ok (before, after)) : after.arena = m.arena := by
  obtain ⟨_, _, rfl⟩ := map_eq_ok.mp mapped
  exact arena_setDirectory m v _

theorem unmap_arena (m : Memory L) (v : View) (index : Nat) : (m.unmap v index).2.arena = m.arena :=
  arena_setDirectory m v _

theorem redirect_arena (m : Memory L) (v : View) (old new : Handle) : (m.redirect v old new).2.arena = m.arena :=
  arena_setDirectory m v _

theorem replaceBlocks_arena {old new : Handle} {count : Nat} {after : Memory L}
    (replaced : m.replaceBlocks old new = .ok (count, after)) : after.arena = m.arena := by
  obtain ⟨_, _, rfl⟩ := replaceBlocks_eq_ok.mp replaced
  rfl

/-- The blocks of an image are padded to full size. -/
theorem shareImage_grows (m : Memory L) (index : Nat) (image : List UInt8) :
    m.arena.Grows (fun block => ∃ image fill, block = .rom (.padded image fill))
      (m.shareImage index image).2.arena := by
  fun_induction Memory.shareImage m index image with
  | case1 => exact .refl
  | case2 m index b rest image h between shared later after copied ih =>
    have here : m.arena.Grows (fun block => ∃ image fill, block = .rom (.padded image fill))
        (m.share index (.rom (.padded (image.take blockSize) openBus))).2.arena := .insert .refl ⟨_, _, rfl⟩
    rw [shared] at here
    rw [copied] at ih
    exact here.trans ih

theorem loadRom_grows {base : Address} {image : List UInt8} {hs : List Handle} {after : Memory L}
    (loaded : m.loadRom base image = .ok (hs, after)) :
    m.arena.Grows (fun block => ∃ image fill, block = .rom (.padded image fill)) after.arena := by
  obtain ⟨_, _, done⟩ := loadRom_eq_ok.mp loaded
  have grows := m.shareImage_grows base.blockIndex image
  rwa [done] at grows

end Memory

namespace Machine

/-- A change of the memory map brings in blocks, or is refused and brings in none. -/
theorem answer_grows {α : Type} {m : Machine S L P} {toAnswer : α → Answer L}
    {result : Except MemoryError (α × Memory L)} {brings : Block L → Prop}
    (changed : ∀ a memory, result = .ok (a, memory) → m.memory.arena.Grows brings memory.arena) :
    m.memory.arena.Grows brings (m.answer toAnswer result).2.memory.arena := by
  cases result with
  | error e => exact .refl
  | ok accepted => exact changed accepted.1 accepted.2 rfl

theorem grows_of_eq {before after : Arena L} (same : after = before) {brings : Block L → Prop} :
    before.Grows brings after := by
  rw [same]
  exact .refl

/-- What becomes of the blocks when an operation is carried out. -/
inductive Effect (config : Config) (t : Toolchain S L) (m : Machine S L P) : Operation L → Arena L → Prop
  | grown {operation after} (quiet : operation.Quiet) (grows : m.memory.arena.Grows operation.Brings after) :
    Effect config t m operation after
  | read {operation after} (quiet : operation.Quiet) (touched : Arena.Related Block.Touched m.memory.arena after) :
    Effect config t m operation after
  | stored (v : View) (w : Width) (a : Address) (value : w.Value) :
    Effect config t m (.set v w a value) (m.memory.arena.store (m.memory.directory v) a (w.encode value))
  | copied (v : View) (a : Address) (bytes : List UInt8) :
    Effect config t m (.copyIn v a bytes) (m.memory.arena.copyIn (m.memory.directory v) a bytes)
  | cleared (v : View) : Effect config t m (.clear v) (m.memory.arena.clearMapped (m.memory.directory v))
  | requested {operation v a} (asks : operation.place? = some (v, a)) :
    Effect config t m operation (m.memory.arena.requestCode config t (m.memory.directory v) a m.progress).2.1

variable [Executes L P]

theorem memory_step_of_place? {operation : Operation L} {v : View} {a : Address}
    (asks : operation.place? = some (v, a)) (config : Config) (t : Toolchain S L) (m : Machine S L P) :
    (m.step config t operation).2.memory = (m.request config t v a).2.memory := by
  cases operation with
  | request | execute =>
    cases asks
    simp only [step]
    generalize m.request config t v a = attempt
    obtain ⟨result, after⟩ := attempt
    cases result <;> rfl
  | _ => cases asks

theorem step_effect (config : Config) (t : Toolchain S L) (m : Machine S L P) (operation : Operation L) :
    Effect config t m operation (m.step config t operation).2.memory.arena := by
  cases asks : operation.place? with
  | some place =>
    rw [memory_step_of_place? asks]
    exact .requested asks
  | none =>
    cases operation with
    | install block => exact .grown trivial (.insert .refl rfl)
    | mapShared index block =>
      refine .grown trivial (answer_grows fun h after shared => ?_)
      obtain ⟨_, done⟩ := Memory.mapShared_eq_ok.mp shared
      cases done
      exact .insert .refl rfl
    | loadRom base image =>
      refine .grown trivial (answer_grows fun hs after loaded => ?_)
      exact (Memory.loadRom_grows loaded).mono fun block ⟨_, _, same⟩ => ⟨_, same⟩
    | map v index h => exact .grown trivial (answer_grows fun _ _ mapped => grows_of_eq (Memory.map_arena mapped))
    | unmap v index => exact .grown trivial (grows_of_eq (Memory.unmap_arena m.memory v index))
    | redirect v old new => exact .grown trivial (grows_of_eq (Memory.redirect_arena m.memory v old new))
    | replaceBlocks old new =>
      exact .grown trivial (answer_grows fun _ _ replaced => grows_of_eq (Memory.replaceBlocks_arena replaced))
    | get v w a => exact .read trivial (Arena.keptByReads_touched.load m.memory.arena (m.memory.directory v) a w.size)
    | copyOut v a count =>
      exact .read trivial (Arena.keptByReads_touched.copyOut (m.memory.directory v) a count m.memory.arena)
    | set v w a value => exact .stored v w a value
    | copyIn v a bytes => exact .copied v a bytes
    | clear v => exact .cleared v
    | request v a | execute v a => cases asks

section
variable {config : Config} {t : Toolchain S L} {m : Machine S L P} {operation : Operation L} {after : Arena L}

omit [Executes L P] in
/-- A block that is there stays in its slot, and is afterwards what a read, a write, a clear or a
    conversion leaves of it. -/
theorem Effect.outlives (effect : Effect config t m operation after) {R : Block L → Block L → Prop}
    (kept : Arena.KeptByAccesses R) (clear : ∀ block, R block block.clear)
    (convert : ∀ block offset answer, R block (.cache (block.withCode offset answer))) {h : Handle} {block : Block L}
    (found : m.memory.arena.get? h = some block) : ∃ block', after.get? h = some block' ∧ R block block' := by
  cases effect with
  | grown _ grows => exact ⟨block, grows.get? found, kept.refl block⟩
  | read _ touched =>
    obtain ⟨block', found', rfl | rfl⟩ := touched.some found
    · exact ⟨_, found', kept.refl _⟩
    · exact ⟨_, found', kept.touch block⟩
  | stored v w a value => exact (kept.store _ _ _ _).some found
  | copied v a bytes => exact (kept.copyIn _ _ _ _).some found
  | cleared v => exact (kept.clearMapped clear _ _).some found
  | requested asks => exact ((Arena.requestCode_requested ..).related kept.refl convert).some found

omit [Executes L P] in
/-- What holds of every block before an operation, and of every block that it brings in, holds of every
    block after it, if it is kept by accesses, clears and requests. -/
theorem Effect.forall (effect : Effect config t m operation after) {Q : Block L → Prop}
    (kept : Arena.KeptByAccesses fun x y => Q x → Q y) (clear : ∀ block, Q block → Q block.clear)
    (fresh : ∀ block, operation.Brings block → Q block)
    (requests : ∀ d a, ∀ h block,
      (m.memory.arena.requestCode config t d a m.progress).2.1.get? h = some block → Q block)
    (holds : ∀ h block, m.memory.arena.get? h = some block → Q block) :
    ∀ h block, after.get? h = some block → Q block := by
  cases effect with
  | grown _ grows => exact grows.forall fresh holds
  | read _ touched =>
    have kept : Arena.Related (fun x y => Q x → Q y) m.memory.arena after := by
      refine touched.mono ?_
      rintro x _ (rfl | rfl)
      · exact kept.refl _
      · exact kept.touch x
    exact fun h block found => kept.forall holds found
  | stored v w a value => exact fun h block found => (kept.store _ _ _ _).forall holds found
  | copied v a bytes => exact fun h block found => (kept.copyIn _ _ _ _).forall holds found
  | cleared v => exact fun h block found => (kept.clearMapped clear _ _).forall holds found
  | requested asks => exact requests _ _

end

/-! ### Runs -/

/-- Runs of any length in which every operation is allowed in the memory in which it is carried out. Each
    comes with limits and tools of its own. -/
inductive Steps (allowed : Memory L → Operation L → Prop) (first : Machine S L P) : Machine S L P → Prop
  | refl : Steps allowed first first
  | step {m : Machine S L P} (before : Steps allowed first m) (config : Config) (t : Toolchain S L)
    {operation : Operation L} (accepted : allowed m.memory operation) :
    Steps allowed first (m.step config t operation).2

/-- What every allowed operation keeps, a run keeps. -/
theorem Steps.keep {allowed : Memory L → Operation L → Prop} {first last : Machine S L P}
    (run : Steps allowed first last) {Q : Memory L → Prop}
    (step : ∀ (m : Machine S L P) config t operation, allowed m.memory operation → Q m.memory →
      Q (m.step config t operation).2.memory) (start : Q first.memory) : Q last.memory := by
  induction run with
  | refl => exact start
  | step _ config t accepted ih => exact step _ config t _ accepted ih

/-- A block that is there stays in its slot, and is at any later time what reads, writes, clears and
    conversions leave of it. -/
theorem Steps.outlives {allowed : Memory L → Operation L → Prop} {first last : Machine S L P}
    (run : Steps allowed first last) {R : Block L → Block L → Prop} (kept : Arena.KeptByAccesses R)
    (clear : ∀ block, R block block.clear)
    (convert : ∀ block offset answer, R block (.cache (block.withCode offset answer))) {h : Handle} {block : Block L}
    (found : first.memory.arena.get? h = some block) :
    ∃ block', last.memory.arena.get? h = some block' ∧ R block block' := by
  refine run.keep (Q := fun memory => ∃ block', memory.arena.get? h = some block' ∧ R block block')
    (fun m config t operation _ before => ?_) ⟨block, found, kept.refl block⟩
  obtain ⟨middle, found', here⟩ := before
  obtain ⟨last, found'', there⟩ := (step_effect config t m operation).outlives kept clear convert found'
  exact ⟨last, found'', kept.trans _ _ _ here there⟩

/-- A list of operations is such a run. -/
theorem steps_run (config : Config) (t : Toolchain S L) {first : Machine S L P} (operations : List (Operation L)) :
    ∀ {m : Machine S L P}, Steps (fun _ _ => True) first m →
      Steps (fun _ _ => True) first (m.run config t operations) := by
  induction operations with
  | nil => exact fun before => before
  | cons operation rest ih => exact fun before => ih (before.step config t trivial)

end Machine

end GuestMemory
