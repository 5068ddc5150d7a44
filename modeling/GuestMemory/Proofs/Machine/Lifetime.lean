import GuestMemory.Proofs.Fusion.Toy
import GuestMemory.Proofs.Machine.Effect
import GuestMemory.Proofs.Memory.Reuse

/-!
How long code lives. Code that a request was answered with answers all later requests for its cell, until
one of its bytes is written or its block is cleared; from then on, until the next request for it, no code
is kept in the cell, and that request makes it anew (`request_lifetime`). For one operation this follows
from what it does to blocks (`Effect.codeAt_eq_some_iff`, `Effect.added`), and for runs by induction.

Code can be entered past the end of a block before the block is installed. If such a block is firmware, it
stays too short, and what is evicted there cannot be made anew (`overhang_not_recombined`).
-/
namespace GuestMemory

open Fusion

variable {S L P : Type} [CodeUnit L]

/-! ### Code in its block -/

namespace Block

theorem isSome_cache?_of_codeAt {block : Block L} {offset : Nat} {code : CodeTree L}
    (kept : block.codeAt offset = some code) : block.cache?.isSome = true := by
  cases block with
  | cache c => rfl
  | _ => cases kept

theorem endsBefore_iff {block : Block L} {offset : Nat} :
    block.EndsBefore offset ↔ block.isWritable = false ∧ block.size < offset :=
  ⟨fun ends => ⟨ends.readOnly, ends.short⟩, fun ends => ⟨ends.1, ends.2⟩⟩

theorem endsBefore_clear (block : Block L) (offset : Nat) :
    block.clear.EndsBefore offset ↔ block.EndsBefore offset := by
  rw [endsBefore_iff, endsBefore_iff, isWritable_clear, size_clear]
  cases block.isWritable <;> simp

end Block

namespace Arena

theorem codeAt_of_touched {before after : Arena L} (touched : Related Block.Touched before after) (cell : Cell) :
    after.codeAt cell = before.codeAt cell := by
  cases found : before.get? cell.handle with
  | none => rw [codeAt, codeAt, found, touched.none found]
  | some block =>
    obtain ⟨block', found', rfl | rfl⟩ := touched.some found
    · rw [codeAt_of_get? found', codeAt_of_get? found]
    · rw [codeAt_of_get? found', codeAt_of_get? found, Block.codeAt, Block.code_touch, Block.codeAt]

theorem isSpanning_of_codeAt {arena : Arena L} {cell : Cell} {code : CodeTree L}
    (kept : arena.codeAt cell = some code) : code.isSpanning = false := by
  obtain ⟨block, _, kept⟩ := Option.bind_eq_some_iff.mp kept
  exact Block.isSpanning_of_codeAt kept

theorem keptByAccesses_reach (offset : Nat) :
    KeptByAccesses (L := L) fun x y => offset ≤ x.size → offset ≤ y.size where
  refl _ := id
  trans _ _ _ first second := second ∘ first
  touch block := by simp
  patch block _ _ _ := by simp

theorem keptByAccesses_endsBefore (offset : Nat) :
    KeptByAccesses (L := L) fun x y => y.EndsBefore offset ↔ x.EndsBefore offset where
  refl _ := .rfl
  trans _ _ _ first second := second.trans first
  touch block := by simp [Block.endsBefore_iff]
  patch block _ _ _ := by simp [Block.endsBefore_iff]

section
variable {arena : Arena L} {config : Config} {t : Toolchain S L} {d : Directory} {a : Address}
  {progress : Progress S} {cell : Cell} {code : CodeTree L}

theorem exists_of_answered (leads : d.cell? a = some cell)
    (answered : (arena.requestCode config t d a progress).1 = .ok code) :
    ∃ block, arena.get? cell.handle = some block := by
  obtain ⟨mapped, _⟩ := Directory.cell?_eq_some.mp leads
  have requested := requestCode_requested config t d a arena progress
  generalize arena.requestCode config t d a progress = result at requested answered
  cases requested with
  | unmapped | unknown | failed => cases answered
  | reused mapped' found _ | made mapped' found _ _ =>
    obtain rfl := Option.some.inj (mapped.symm.trans mapped')
    exact ⟨_, found⟩

/-- Code that is not kept yet was made from the bytes of its block, which goes as far. -/
theorem covers_of_answered (leads : d.cell? a = some cell) (absent : arena.codeAt cell = none)
    (answered : (arena.requestCode config t d a progress).1 = .ok code) : arena.Covers cell := by
  obtain ⟨block, found⟩ := exists_of_answered leads answered
  refine ⟨block, found, Nat.le_of_not_lt fun outside => ?_⟩
  rw [(requestCode_of_outside leads found outside absent config t progress).1] at answered
  cases answered

/-- The code that a request is answered with is kept after it, unless it spans. -/
theorem codeAt_of_answered (leads : d.cell? a = some cell)
    (answered : (arena.requestCode config t d a progress).1 = .ok code) :
    (arena.requestCode config t d a progress).2.1.codeAt cell = if code.isSpanning then none else some code := by
  rw [codeAt_requestCode, if_pos leads, answered, Block.keepable_ok]
  cases kept : arena.codeAt cell with
  | none => exact Option.none_or
  | some earlier =>
    rw [requestCode_of_codeAt leads kept] at answered
    cases answered
    rw [isSpanning_of_codeAt kept]
    rfl

end

end Arena

/-! ### One operation -/

namespace Operation

/-- The operation writes one of the `length` bytes from the cell on, in a block that can be written, or
    clears the block. -/
def Disturbs (m : Memory L) (cell : Cell) (length : Nat) : Operation L → Prop
  | .set v w a _ => m.arena.Struck (m.arena.StoreReaches (m.directory v) a w.size) cell length
  | .copyIn v a bytes => m.arena.Struck ((m.directory v).LeadsTo a bytes.length) cell length
  | .clear v => cell.handle ∈ (m.directory v).handles
  | _ => False

/-- The operation asks for the code in the cell. -/
def Requests (m : Memory L) (cell : Cell) (operation : Operation L) : Prop :=
  ∃ v a, operation.place? = some (v, a) ∧ (m.directory v).cell? a = some cell

theorem Quiet.not_disturbs {operation : Operation L} (quiet : operation.Quiet) (m : Memory L) (cell : Cell)
    (length : Nat) : ¬ operation.Disturbs m cell length := by
  cases operation <;> first | exact id | exact quiet.elim

theorem not_disturbs_of_place? {operation : Operation L} {place : View × Address}
    (asks : operation.place? = some place) (m : Memory L) (cell : Cell) (length : Nat) :
    ¬ operation.Disturbs m cell length := by
  cases operation <;> first | exact id | cases asks

end Operation

namespace Machine

section
variable {config : Config} {t : Toolchain S L} {m : Machine S L P} {operation : Operation L}
  {after : Arena L} {cell : Cell}

theorem Effect.covers (effect : Effect config t m operation after) (near : cell.offset ≤ blockSize)
    (covers : m.memory.arena.Covers cell) : after.Covers cell := by
  obtain ⟨block, found, inside⟩ := covers
  obtain ⟨block', found', kept⟩ := effect.outlives (Arena.keptByAccesses_reach cell.offset)
    (fun block inside => block.le_size_clear inside near) (fun block offset answer => by simp) found
  exact ⟨block', found', kept inside⟩

/-- Only a request that leads to a cell adds code in a block that is there. -/
theorem Effect.added (effect : Effect config t m operation after) {block : Block L}
    (found : m.memory.arena.get? cell.handle = some block) (elsewhere : ¬ operation.Requests m.memory cell)
    {code : CodeTree L} (kept : after.codeAt cell = some code) : m.memory.arena.codeAt cell = some code := by
  cases effect with
  | grown _ grows =>
    rwa [Arena.codeAt_of_get? (grows.get? found), ← Arena.codeAt_of_get? found] at kept
  | read _ touched => rwa [Arena.codeAt_of_touched touched] at kept
  | stored v w a value => exact (Arena.store_encode_evicts _ _ a w value).added cell code kept
  | copied v a bytes => exact (Arena.copyIn_evicts _ _ a bytes).added cell code kept
  | cleared v =>
    rw [Arena.codeAt_clearMapped] at kept
    split at kept
    · cases kept
    · exact kept
  | requested asks => rwa [Arena.codeAt_requestCode, if_neg fun leads => elsewhere ⟨_, _, asks, leads⟩] at kept

/-- Code with bytes stays where it is unless it is disturbed. -/
theorem Effect.codeAt_eq_some_iff (effect : Effect config t m operation after) {code : CodeTree L}
    (kept : m.memory.arena.codeAt cell = some code) (solid : 0 < code.byteLength.toNat) :
    after.codeAt cell = some code ↔ ¬ operation.Disturbs m.memory cell code.byteLength.toNat := by
  cases effect with
  | grown quiet grows =>
    obtain ⟨block, found, held⟩ := Option.bind_eq_some_iff.mp kept
    refine iff_of_true ?_ (quiet.not_disturbs m.memory cell _)
    rw [Arena.codeAt_of_get? (grows.get? found), held]
  | read quiet touched =>
    refine iff_of_true ?_ (quiet.not_disturbs m.memory cell _)
    rw [Arena.codeAt_of_touched touched, kept]
  | stored v w a value => exact (Arena.store_encode_evicts _ _ a w value).kept cell code kept solid
  | copied v a bytes => exact (Arena.copyIn_evicts _ _ a bytes).kept cell code kept solid
  | cleared v =>
    rw [Arena.codeAt_clearMapped, kept]
    simp [Operation.Disturbs]
  | requested asks =>
    refine iff_of_true ?_ (Operation.not_disturbs_of_place? asks m.memory cell _)
    rw [Arena.codeAt_requestCode, kept]
    split <;> rfl

/-- Code that is disturbed is gone. -/
theorem Effect.codeAt_of_disturbs (effect : Effect config t m operation after) {code : CodeTree L}
    (kept : m.memory.arena.codeAt cell = some code) (solid : 0 < code.byteLength.toNat)
    (disturbs : operation.Disturbs m.memory cell code.byteLength.toNat) : after.codeAt cell = none := by
  have elsewhere : ¬ operation.Requests m.memory cell := by
    rintro ⟨v, a, asks, _⟩
    exact Operation.not_disturbs_of_place? asks m.memory cell _ disturbs
  cases left : after.codeAt cell with
  | none => rfl
  | some other =>
    obtain ⟨block, found, _⟩ := Option.bind_eq_some_iff.mp kept
    have earlier := effect.added found elsewhere left
    obtain rfl := Option.some.inj (kept.symm.trans earlier)
    exact absurd disturbs ((effect.codeAt_eq_some_iff kept solid).mp left)

/-- A write that reaches code finds its block long enough, and a clear makes a code cache that can be written
    into a whole block. Only firmware can be too short for the code that is to be made anew. -/
theorem Effect.covers_of_disturbs (effect : Effect config t m operation after) (near : cell.offset ≤ blockSize)
    {code : CodeTree L} (kept : m.memory.arena.codeAt cell = some code) (within : ¬ m.memory.arena.Overhung cell)
    {length : Nat} (disturbs : operation.Disturbs m.memory cell length) : after.Covers cell := by
  obtain ⟨block, found, held⟩ := Option.bind_eq_some_iff.mp kept
  by_cases inside : cell.offset ≤ block.size
  · exact effect.covers near ⟨block, found, inside⟩
  have outside : block.size < cell.offset := Nat.lt_of_not_le inside
  have unreached {reached : Cell → Prop} : ¬ m.memory.arena.Struck reached cell length := by
    rintro ⟨i, _, ⟨block', found', _, short⟩, _⟩
    obtain rfl := Option.some.inj (found.symm.trans found')
    exact inside (Nat.le_of_lt (Nat.lt_of_le_of_lt (Nat.le_add_right _ i) short))
  cases effect with
  | grown quiet | read quiet => exact absurd disturbs (quiet.not_disturbs m.memory cell length)
  | stored | copied => exact absurd disturbs unreached
  | requested asks => exact absurd disturbs (Operation.not_disturbs_of_place? asks m.memory cell length)
  | cleared v =>
    have writable : block.isWritable = true := by
      cases readOnly : block.isWritable with
      | true => rfl
      | false => exact absurd ⟨block, found, readOnly, outside⟩ within
    have listed : cell.handle ∈ (m.memory.directory v).handles := disturbs
    refine ⟨block.clear, ?_, ?_⟩
    · rw [Arena.clearMapped_eq, Arena.get?_clearAll, if_pos listed, found, Option.map_some]
    · rw [Block.size_clear, Block.isSome_cache?_of_codeAt held, writable]
      exact near

end

/-! ### Runs -/

variable [Executes L P] {first last : Machine S L P} {cell : Cell} {code : CodeTree L}

theorem Steps.covers {allowed : Memory L → Operation L → Prop} (run : Steps allowed first last)
    (near : cell.offset ≤ blockSize) (start : first.memory.arena.Covers cell) : last.memory.arena.Covers cell := by
  refine run.keep (Q := fun memory => memory.arena.Covers cell) (fun m config t operation _ covers => ?_) start
  exact (step_effect config t m operation).covers near covers

/-- Firmware that ends before a cell ends there ever after, and no other block comes to be such firmware. -/
theorem Steps.overhung_iff {allowed : Memory L → Operation L → Prop} (run : Steps allowed first last)
    {block : Block L} (found : first.memory.arena.get? cell.handle = some block) :
    last.memory.arena.Overhung cell ↔ first.memory.arena.Overhung cell := by
  obtain ⟨block', found', same⟩ := run.outlives (Arena.keptByAccesses_endsBefore cell.offset)
    (fun block => block.endsBefore_clear cell.offset) (fun block offset answer => by simp [Block.endsBefore_iff]) found
  simp only [Arena.Overhung, found, found', Option.some.injEq, exists_eq_left', same]

/-- Code that nothing disturbs stays. -/
theorem Steps.codeAt (run : Steps (fun m operation => ¬ operation.Disturbs m cell code.byteLength.toNat) first last)
    (solid : 0 < code.byteLength.toNat) (start : first.memory.arena.codeAt cell = some code) :
    last.memory.arena.codeAt cell = some code := by
  refine run.keep (Q := fun memory => memory.arena.codeAt cell = some code)
    (fun m config t operation spared kept => ?_) start
  exact ((step_effect config t m operation).codeAt_eq_some_iff kept solid).mpr spared

/-- Where no code is kept, none is until the next request. -/
theorem Steps.codeAt_none (run : Steps (fun m operation => ¬ operation.Requests m cell) first last)
    {block : Block L} (found : first.memory.arena.get? cell.handle = some block)
    (absent : first.memory.arena.codeAt cell = none) : last.memory.arena.codeAt cell = none := by
  refine (run.keep
    (Q := fun memory => (∃ block, memory.arena.get? cell.handle = some block) ∧ memory.arena.codeAt cell = none)
    (fun m config t operation elsewhere before => ?_) ⟨⟨block, found⟩, absent⟩).2
  obtain ⟨⟨block, found⟩, absent⟩ := before
  have effect := step_effect config t m operation
  obtain ⟨block', found', _⟩ :=
    effect.outlives Arena.keptByAccesses_slot (fun _ => trivial) (fun _ _ _ => trivial) found
  refine ⟨⟨block', found'⟩, ?_⟩
  cases left : (m.step config t operation).2.memory.arena.codeAt cell with
  | none => rfl
  | some code =>
    rw [effect.added found elsewhere left] at absent
    cases absent

/-- After the operation that disturbs code, none is kept until the next request. That request makes the code anew,
    or is refused if the block is firmware that ends before the cell. -/
theorem step_of_disturbs {m : Machine S L P} (near : cell.offset ≤ blockSize)
    (kept : m.memory.arena.codeAt cell = some code) (solid : 0 < code.byteLength.toNat) (config : Config)
    (t : Toolchain S L) {operation : Operation L}
    (disturbs : operation.Disturbs m.memory cell code.byteLength.toNat) :
    (m.step config t operation).2.memory.arena.codeAt cell = none ∧
      ∀ last, Steps (fun m operation => ¬ operation.Requests m cell) (m.step config t operation).2 last →
        (¬ m.memory.arena.Overhung cell → last.memory.Recombines S cell) ∧
          (m.memory.arena.Overhung cell → last.memory.Refuses S cell) := by
  have effect := step_effect config t m operation
  have gone := effect.codeAt_of_disturbs kept solid disturbs
  have stepped : Steps (fun _ _ => True) m (m.step config t operation).2 := .step .refl config t trivial
  obtain ⟨_, found, _⟩ := Option.bind_eq_some_iff.mp kept
  obtain ⟨_, found', _⟩ :=
    stepped.outlives Arena.keptByAccesses_slot (fun _ => trivial) (fun _ _ _ => trivial) found
  refine ⟨gone, fun last run => ⟨fun within => ?_, fun overhung => ?_⟩⟩
  · have covers := effect.covers_of_disturbs near kept within disturbs
    exact Memory.recombines_of_codeAt_none (run.covers near covers) (run.codeAt_none found' gone)
  · have overhung := (run.overhung_iff found').mpr ((stepped.overhung_iff found).mpr overhung)
    exact Memory.refuses_of_codeAt_none overhung (run.codeAt_none found' gone)

/-- What becomes of the code that a request for a cell was answered with, in the machine after it. -/
structure Lifetime (m : Machine S L P) (cell : Cell) (code : CodeTree L) : Prop where
  /-- As long as none of its bytes is written, and its block is not cleared, it answers all requests for the
      cell. -/
  reused : code.isSpanning = false → 0 < code.byteLength.toNat → ∀ later,
    Steps (fun m operation => ¬ operation.Disturbs m cell code.byteLength.toNat) m later →
    later.memory.Reuses S cell code
  /-- With the first such write or clear it is gone. The next request makes the code anew, unless the block is
      firmware that ends before the cell; then the request is refused. -/
  evicted : code.isSpanning = false → 0 < code.byteLength.toNat → ∀ later,
    Steps (fun m operation => ¬ operation.Disturbs m cell code.byteLength.toNat) m later →
    ∀ (config : Config) (t : Toolchain S L) (operation : Operation L),
      operation.Disturbs later.memory cell code.byteLength.toNat →
      (later.step config t operation).2.memory.arena.codeAt cell = none ∧
        ∀ last, Steps (fun m operation => ¬ operation.Requests m cell) (later.step config t operation).2 last →
          (¬ m.memory.arena.Overhung cell → last.memory.Recombines S cell) ∧
            (m.memory.arena.Overhung cell → last.memory.Refuses S cell)
  /-- Code that spans is not kept, and is made anew whenever there is no other for the cell. -/
  spanning : code.isSpanning = true → m.memory.arena.codeAt cell = none ∧
    ∀ later, Steps (fun _ _ => True) m later → later.memory.arena.codeAt cell = none →
      later.memory.Recombines S cell

/-- Code that a request is answered with is reused until it is overwritten or cleared, and no longer. Where a
    request makes the code, its block goes as far, and never ends before the cell again. -/
theorem request_lifetime (config : Config) (t : Toolchain S L) {m : Machine S L P} {v : View} {a : Address}
    (leads : (m.memory.directory v).cell? a = some cell) (answered : (m.request config t v a).1 = .ok code) :
    Lifetime (m.request config t v a).2 cell code ∧
      (m.memory.arena.codeAt cell = none → ∀ later,
        Steps (fun _ _ => True) (m.request config t v a).2 later → later.memory.arena.Covers cell) := by
  have near : cell.offset ≤ blockSize := (Directory.cell?_eq_some.mp leads).2 ▸ Nat.le_of_lt a.blockOffset_lt
  -- The step that asks for the code is a request like any other.
  have effect : Effect config t m (.request v a) (m.request config t v a).2.memory.arena := .requested rfl
  have kept : (m.request config t v a).2.memory.arena.codeAt cell = if code.isSpanning then none else some code :=
    Arena.codeAt_of_answered leads answered
  have made (absent : m.memory.arena.codeAt cell = none) : (m.request config t v a).2.memory.arena.Covers cell :=
    effect.covers near (Arena.covers_of_answered leads absent answered)
  refine ⟨⟨fun contained solid later undisturbed => ?_, fun contained solid later undisturbed config t operation
    disturbs => ?_, fun spans => ?_⟩, fun absent later run => run.covers near (made absent)⟩
  · rw [contained] at kept
    exact Memory.reuses_of_codeAt (undisturbed.codeAt solid kept)
  · rw [contained] at kept
    obtain ⟨block, found, _⟩ := Option.bind_eq_some_iff.mp kept
    rw [← undisturbed.overhung_iff found]
    exact step_of_disturbs near (undisturbed.codeAt solid kept) solid config t disturbs
  · rw [spans] at kept
    refine ⟨kept, fun later run absent => Memory.recombines_of_codeAt_none (run.covers near (made ?_)) absent⟩
    cases earlier : m.memory.arena.codeAt cell with
    | none => rfl
    | some code' =>
      -- Kept code would have been the answer, but it does not span.
      have same := congrArg Prod.fst (Arena.requestCode_of_codeAt leads earlier config t m.progress)
      obtain rfl := Except.ok.inj (answered.symm.trans same)
      rw [Arena.isSpanning_of_codeAt earlier] at spans
      cases spans

section
open Toy

/-- A block behind two addresses of the linear view. -/
def aliased : Machine Unit Stub Count :=
  run {} toolchain [.mapShared 0 (.cache (.ofContents window true)), .map .linear 5 ⟨0⟩] ⟨.empty, ⟨(), {}⟩, 0⟩

/-- The machine after its code was asked for. -/
def asked : Machine Unit Stub Count := (aliased.request {} toolchain .physical 0).2

theorem asked_get? : asked.memory.arena.get? ⟨0⟩ =
    some (.cache ⟨window, true, ⟨[(0, tree)], List.pairwise_singleton ..⟩, by decide⟩) := by
  decide +kernel

/-- A byte written through the alias lands at the same offset. -/
theorem asked_disturbs (offset : Nat) (near : offset < 7) (value : Width.byte.Value) :
    Operation.Disturbs asked.memory ⟨⟨0⟩, 0⟩ 6 (.set .linear .byte (UInt32.ofNat (0x5000 + offset)) value) ↔
      offset < 6 := by
  have place : (UInt32.ofNat (0x5000 + offset)).toNat = 0x5000 + offset := by
    rw [UInt32.toNat_ofNat']
    omega
  have index : Address.blockIndex (UInt32.ofNat (0x5000 + offset)) = 5 := by
    rw [Address.blockIndex, place, blockSize]
    omega
  have inside : Address.blockOffset (UInt32.ofNat (0x5000 + offset)) = offset := by
    rw [Address.blockOffset, place, blockSize]
    omega
  have mapped : (asked.memory.directory .linear).handleAt (UInt32.ofNat (0x5000 + offset)) = some ⟨0⟩ := by
    rw [Directory.handleAt, index]
    decide +kernel
  have reaches : ∀ cell, asked.memory.arena.StoreReaches (asked.memory.directory .linear)
      (UInt32.ofNat (0x5000 + offset)) 1 cell ↔
      cell.handle = ⟨0⟩ ∧ offset ≤ cell.offset ∧ cell.offset < offset + 1 := by
    intro cell
    have fits : Address.blockOffset (UInt32.ofNat (0x5000 + offset)) + 1 ≤ window.size := by
      rw [inside]
      exact near
    have room := Arena.storeReaches_of_room mapped asked_get? fits cell
    rwa [inside] at room
  simp only [Operation.Disturbs, Arena.Struck, Width.size, reaches, true_and, Nat.zero_add]
  constructor
  · rintro ⟨i, short, _, above, below⟩
    omega
  · intro short
    exact ⟨offset, short, ⟨_, asked_get?, rfl, near⟩, Nat.le_refl _, Nat.lt_succ_self _⟩

/-- A write through the alias behind the last byte of the code leaves the code alone, and a write of the
    last byte itself evicts it. -/
theorem aliased_lifetime :
    (aliased.memory.directory .physical).cell? 0 = some ⟨⟨0⟩, 0⟩ ∧
      (aliased.request {} toolchain .physical 0).1 = .ok tree ∧
      (asked.step {} toolchain (.set .linear .byte 0x5006 0x90)).2.memory.Reuses Unit ⟨⟨0⟩, 0⟩ tree ∧
      (asked.step {} toolchain (.set .linear .byte 0x5005 0x90)).2.memory.Recombines Unit ⟨⟨0⟩, 0⟩ := by
  have leads : (aliased.memory.directory .physical).cell? 0 = some ⟨⟨0⟩, 0⟩ := by decide +kernel
  have answered : (aliased.request {} toolchain .physical 0).1 = .ok tree := by decide +kernel
  have lived := request_lifetime {} toolchain leads answered
  have lifetime : Lifetime asked ⟨⟨0⟩, 0⟩ tree := lived.1
  have covers : asked.memory.arena.Covers ⟨⟨0⟩, 0⟩ := lived.2 (by decide +kernel) asked .refl
  have length : tree.byteLength.toNat = 6 := by decide
  refine ⟨leads, answered, ?_, ?_⟩
  · refine lifetime.reused rfl (by decide) _ (.step .refl {} toolchain ?_)
    rw [length]
    exact mt (asked_disturbs 6 (by decide) 0x90).mp (by decide)
  · obtain ⟨_, anew⟩ := lifetime.evicted rfl (by decide) _ .refl {} toolchain (.set .linear .byte 0x5005 0x90) (by
      rw [length]
      exact (asked_disturbs 5 (by decide) 0x90).mpr (by decide))
    exact (anew _ .refl).1 covers.not_overhung

/-- Two bytes of firmware, with code for an offset past the end of them. -/
def overhanging : CodeCache Stub := ((CodeCache.ofContents #[0xC3, 0xC3] false).insert 100 tree).get rfl

def overhang : Machine Unit Stub Count :=
  run {} toolchain [.mapShared 0 (.cache overhanging)] ⟨.empty, ⟨(), {}⟩, 0⟩

/-- The machine after it was asked for the code and then cleared. -/
def emptied : Machine Unit Stub Count :=
  ((overhang.request {} toolchain .physical 100).2.step {} toolchain (.clear .physical)).2

/-- Code that came with firmware too short for it is gone with the next clear, and no tool is run to make it
    anew. -/
theorem overhang_not_recombined :
    (overhang.memory.directory .physical).cell? 100 = some ⟨⟨0⟩, 100⟩ ∧
      (overhang.request {} toolchain .physical 100).1 = .ok tree ∧
      tree.isSpanning = false ∧ 0 < tree.byteLength.toNat ∧
      Operation.Disturbs (overhang.request {} toolchain .physical 100).2.memory ⟨⟨0⟩, 100⟩ tree.byteLength.toNat
        (.clear .physical) ∧
      (emptied.request {} toolchain .physical 100).1 = .error (.noCode 100 (.decode (.outOfBounds 100))) ∧
      (emptied.request {} toolchain .physical 100).2.progress = emptied.progress ∧
      ¬ emptied.memory.Recombines Unit ⟨⟨0⟩, 100⟩ := by
  have listed : ⟨0⟩ ∈ ((overhang.request {} toolchain .physical 100).2.memory.directory .physical).handles := by
    decide +kernel
  have refused : (emptied.request {} toolchain .physical 100).1 =
      .error (.noCode 100 (.decode (.outOfBounds 100))) := by
    decide +kernel
  have untouched : (emptied.request {} toolchain .physical 100).2.progress = emptied.progress := by decide +kernel
  refine ⟨by decide +kernel, by decide +kernel, rfl, by decide, listed, refused, untouched, ?_⟩
  rintro ⟨block, found, anew⟩
  have there : emptied.memory.arena.get? ⟨0⟩ = some (.cache (.ofContents #[0xC3, 0xC3] false)) := by decide +kernel
  obtain rfl := Option.some.inj (found.symm.trans there)
  -- A run of the tools would be counted, even one that fails.
  have counted := (anew .physical 100 (by decide +kernel) {} toolchain emptied.progress).2
  have attempts := congrArg (·.stats.attempts) (untouched.symm.trans counted)
  revert attempts
  decide +kernel

end

end Machine

end GuestMemory
