import GuestMemory.Proofs.Memory.Eviction
import GuestMemory.Proofs.Memory.Request

/-!
Requests for code that is kept, and for code that is not. Code that is kept for a cell is the answer to
every request that leads there, and the tools take no part in it (`requestCode_of_codeAt`); where none is
kept, the tools make it anew from the bytes of the block (`requestCode_of_codeAt_none`), unless the block
ends before the cell (`requestCode_of_outside`). A request adds at most its answer to the code that is
kept, in its own cell (`codeAt_requestCode`).
-/
namespace GuestMemory

open Fusion

variable {S L : Type} [CodeUnit L]

/-- The block is read-only and ends before the offset. Nothing that is done to it makes it any longer. -/
structure Block.EndsBefore (block : Block L) (offset : Nat) : Prop where
  readOnly : block.isWritable = false
  short : block.size < offset

namespace Arena

/-- The cell lies in its block, or at the end of it: from there on the tools can read. -/
def Covers (arena : Arena L) (cell : Cell) : Prop :=
  ∃ block, arena.get? cell.handle = some block ∧ cell.offset ≤ block.size

/-- The cell lies past the end of its block, and the block never grows. -/
def Overhung (arena : Arena L) (cell : Cell) : Prop :=
  ∃ block, arena.get? cell.handle = some block ∧ block.EndsBefore cell.offset

theorem Covers.not_overhung {arena : Arena L} {cell : Cell} (covers : arena.Covers cell) : ¬ arena.Overhung cell := by
  obtain ⟨block, found, inside⟩ := covers
  rintro ⟨other, found', outside⟩
  obtain rfl := Option.some.inj (found.symm.trans found')
  exact Nat.not_le_of_lt outside.short inside

/-- The conversion of a block does not show in the window of any other. -/
theorem decodeWindow_put {arena : Arena L} {h : Handle} {block : Block L} (found : arena.get? h = some block)
    (d : Directory) (a : Address) (contents : Contents) :
    (arena.put h (.cache block.toCodeCache)).decodeWindow d a contents = arena.decodeWindow d a contents := by
  have next : (arena.put h (.cache block.toCodeCache)).nextContents d a = arena.nextContents d a := by
    rw [nextContents, nextContents]
    cases d.handleForIndex (a.blockIndex + 1) with
    | none => rfl
    | some other =>
      rw [Option.bind_some, Option.bind_some, get?_put]
      by_cases same : other = h
      · subst same
        rw [if_pos rfl, found, Option.map_some]
        exact block.contents_toCodeCache
      · rw [if_neg same]
  rw [decodeWindow, next, decodeWindow]

theorem size_le_decodeWindow (arena : Arena L) (d : Directory) (a : Address) (contents : Contents) :
    contents.size ≤ (arena.decodeWindow d a contents).size := by
  obtain ⟨tail, window, _⟩ := arena.decodeWindow_eq d a contents
  rw [window, Array.size_append]
  exact Nat.le_add_right _ _

theorem codeAt_put_withCode {arena : Arena L} {d : Directory} {a : Address} {h : Handle} {block : Block L}
    (mapped : d.handleAt a = some h) (found : arena.get? h = some block)
    (answer : Except MemoryError (CodeTree L)) (cell : Cell) :
    (arena.put h (.cache (block.withCode a.blockOffset answer))).codeAt cell =
      if d.cell? a = some cell then (arena.codeAt cell).or (Block.keepable answer) else arena.codeAt cell := by
  have kept : (Block.cache (block.withCode a.blockOffset answer)).codeAt cell.offset =
      if cell.offset = a.blockOffset then (block.codeAt cell.offset).or (Block.keepable answer)
      else block.codeAt cell.offset := block.find?_codeAfter a.blockOffset answer cell.offset
  rw [codeAt_put found, kept]
  by_cases same : cell.handle = h
  · subst same
    rw [if_pos rfl, codeAt_of_get? found]
    by_cases here : cell.offset = a.blockOffset
    · rw [if_pos here, if_pos (Directory.cell?_eq_some.mpr ⟨mapped, here.symm⟩)]
    · rw [if_neg here, if_neg fun leads => here (Directory.cell?_eq_some.mp leads).2.symm]
  · rw [if_neg same, if_neg fun leads => ?_]
    exact same (Option.some.inj ((Directory.cell?_eq_some.mp leads).1.symm.trans mapped))

/-- A request adds its answer in the cell that it leads to, if no code is kept there and the answer is
    code that does not span; all other code stays as it is. -/
theorem codeAt_requestCode (config : Config) (t : Toolchain S L) (d : Directory) (a : Address) (arena : Arena L)
    (progress : Progress S) (cell : Cell) :
    (arena.requestCode config t d a progress).2.1.codeAt cell =
      if d.cell? a = some cell then
        (arena.codeAt cell).or (Block.keepable (arena.requestCode config t d a progress).1)
      else arena.codeAt cell := by
  have requested := requestCode_requested config t d a arena progress
  generalize arena.requestCode config t d a progress = result at requested ⊢
  cases requested with
  | unmapped nowhere | unknown mapped missing => simp [Block.keepable, Except.toOption]
  | failed mapped found absent built => exact codeAt_put_withCode mapped found (.error _) cell
  | made mapped found absent built => exact codeAt_put_withCode mapped found (.ok _) cell
  | @reused h block code mapped found kept =>
    by_cases leads : d.cell? a = some cell
    · obtain ⟨mapped', here⟩ := Directory.cell?_eq_some.mp leads
      obtain rfl := Option.some.inj (mapped'.symm.trans mapped)
      rw [if_pos leads, codeAt_of_get? found, ← here, kept, Option.some_or]
    · rw [if_neg leads]

/-- Code that is kept for a cell answers every request that leads there. Nothing changes, the tools not
    even in their state. -/
theorem requestCode_of_codeAt {arena : Arena L} {d : Directory} {a : Address} {cell : Cell} {code : CodeTree L}
    (leads : d.cell? a = some cell) (kept : arena.codeAt cell = some code) (config : Config) (t : Toolchain S L)
    (progress : Progress S) : arena.requestCode config t d a progress = (.ok code, arena, progress) := by
  obtain ⟨mapped', here⟩ := Directory.cell?_eq_some.mp leads
  have requested := requestCode_requested config t d a arena progress
  generalize arena.requestCode config t d a progress = result at requested ⊢
  cases requested with
  | unmapped nowhere =>
    rw [nowhere] at mapped'
    cases mapped'
  | unknown mapped missing =>
    obtain rfl := Option.some.inj (mapped'.symm.trans mapped)
    rw [codeAt, missing] at kept
    cases kept
  | reused mapped found again =>
    obtain rfl := Option.some.inj (mapped'.symm.trans mapped)
    rw [codeAt_of_get? found, ← here, again] at kept
    cases kept
    rfl
  | failed mapped found absent _ | made mapped found absent _ =>
    obtain rfl := Option.some.inj (mapped'.symm.trans mapped)
    rw [codeAt_of_get? found, ← here, absent] at kept
    cases kept

/-! ### Code made anew -/

/-- Code is made by one run of the tools over the window. -/
theorem buildAt_eq (config : Config) (t : Toolchain S L) (d : Directory) (a : Address) {contents : Contents}
    (inside : a.blockOffset ≤ contents.size) (arena : Arena L) (progress : Progress S) :
    arena.buildAt config t d a contents progress =
      ((combine config t ⟨arena.decodeWindow d a contents, a.blockOffset⟩ progress).1,
        (combine config t ⟨arena.decodeWindow d a contents, a.blockOffset⟩ progress).2.toProgress) := by
  have held : a.blockOffset ≤ (arena.decodeWindow d a contents).size :=
    Nat.le_trans inside (arena.size_le_decodeWindow d a contents)
  simp only [buildAt, Cursor.ofWindow, Cursor.seek, Cursor.size, held, if_true]

/-- For what lies past the end of the block, the tools are not asked. -/
theorem buildAt_outside {contents : Contents} {a : Address} (outside : contents.size < a.blockOffset) (config : Config)
    (t : Toolchain S L) (d : Directory) (arena : Arena L) (progress : Progress S) :
    arena.buildAt config t d a contents progress = (.error (.decode (.outOfBounds a.blockOffset)), progress) := by
  have short : contents.size ≠ blockSize := fun full => Nat.lt_asymm (full ▸ outside) a.blockOffset_lt
  have beyond : ¬ a.blockOffset ≤ contents.size := Nat.not_le.mpr outside
  simp only [buildAt, decodeWindow, short, if_false, Cursor.ofWindow, Cursor.seek, Cursor.size, beyond]

/-- Where a block keeps no code for the offset, the answer is what the tools make. -/
theorem requestCode_of_absent {arena : Arena L} {d : Directory} {a : Address} {h : Handle} {block : Block L}
    (mapped : d.handleAt a = some h) (found : arena.get? h = some block)
    (absent : block.codeAt a.blockOffset = none) {config : Config} {t : Toolchain S L} {progress later : Progress S}
    {made : Except CombineError (CodeTree L)}
    (built : (arena.put h (.cache block.toCodeCache)).buildAt config t d a block.contents progress = (made, later)) :
    (arena.requestCode config t d a progress).1 = made.mapError (.noCode a) ∧
      (arena.requestCode config t d a progress).2.2 = later := by
  have requested := requestCode_requested config t d a arena progress
  generalize arena.requestCode config t d a progress = result at requested ⊢
  cases requested with
  | unmapped nowhere =>
    rw [nowhere] at mapped
    cases mapped
  | unknown mapped' missing =>
    obtain rfl := Option.some.inj (mapped.symm.trans mapped')
    rw [found] at missing
    cases missing
  | reused mapped' found' kept =>
    obtain rfl := Option.some.inj (mapped.symm.trans mapped')
    obtain rfl := Option.some.inj (found.symm.trans found')
    rw [absent] at kept
    cases kept
  | failed mapped' found' _ built' | made mapped' found' _ built' =>
    obtain rfl := Option.some.inj (mapped.symm.trans mapped')
    obtain rfl := Option.some.inj (found.symm.trans found')
    cases built.symm.trans built'
    exact ⟨rfl, rfl⟩

section
variable {arena : Arena L} {d : Directory} {a : Address} {cell : Cell} {block : Block L}

/-- Where no code is kept, a request that leads to the cell runs the tools over the bytes of the block,
    and those of the next. -/
theorem requestCode_of_codeAt_none (leads : d.cell? a = some cell) (found : arena.get? cell.handle = some block)
    (inside : cell.offset ≤ block.size) (absent : arena.codeAt cell = none) (config : Config) (t : Toolchain S L)
    (progress : Progress S) :
    let fused := combine config t ⟨arena.decodeWindow d a block.contents, cell.offset⟩ progress
    (arena.requestCode config t d a progress).1 = fused.1.mapError (.noCode a) ∧
      (arena.requestCode config t d a progress).2.2 = fused.2.toProgress := by
  obtain ⟨mapped, here⟩ := Directory.cell?_eq_some.mp leads
  rw [codeAt_of_get? found, ← here] at absent
  rw [← here] at inside ⊢
  have build := buildAt_eq config t d a (block.size_contents ▸ inside)
    (arena.put cell.handle (.cache block.toCodeCache)) progress
  rw [decodeWindow_put found] at build
  exact requestCode_of_absent mapped found absent build

/-- For a cell past the end of the block the tools are not asked. -/
theorem requestCode_of_outside (leads : d.cell? a = some cell) (found : arena.get? cell.handle = some block)
    (outside : block.size < cell.offset) (absent : arena.codeAt cell = none) (config : Config) (t : Toolchain S L)
    (progress : Progress S) :
    (arena.requestCode config t d a progress).1 = .error (.noCode a (.decode (.outOfBounds cell.offset))) ∧
      (arena.requestCode config t d a progress).2.2 = progress := by
  obtain ⟨mapped, here⟩ := Directory.cell?_eq_some.mp leads
  rw [codeAt_of_get? found, ← here] at absent
  rw [← block.size_contents, ← here] at outside
  rw [← here]
  exact requestCode_of_absent mapped found absent (buildAt_outside outside config t d _ progress)

end

end Arena

/-! ### Memory -/

namespace Memory

/-- Requests that lead to the cell, through either view, are answered with this code, whatever the tools
    and the limits are. They change neither memory nor the tools. -/
def Reuses (S : Type) (m : Memory L) (cell : Cell) (code : CodeTree L) : Prop :=
  ∀ (v : View) (a : Address), (m.directory v).cell? a = some cell →
    ∀ (config : Config) (t : Toolchain S L) (progress : Progress S),
      m.requestCode config t v a progress = (.ok code, m, progress)

/-- Requests that lead to the cell, through either view, are answered with what the tools make of the
    bytes there now. -/
def Recombines (S : Type) (m : Memory L) (cell : Cell) : Prop :=
  ∃ block, m.arena.get? cell.handle = some block ∧
    ∀ (v : View) (a : Address), (m.directory v).cell? a = some cell →
      ∀ (config : Config) (t : Toolchain S L) (progress : Progress S),
        let fused := combine config t ⟨m.arena.decodeWindow (m.directory v) a block.contents, cell.offset⟩ progress
        (m.requestCode config t v a progress).1 = fused.1.mapError (.noCode a) ∧
          (m.requestCode config t v a progress).2.2 = fused.2.toProgress

theorem reuses_of_codeAt {m : Memory L} {cell : Cell} {code : CodeTree L} (kept : m.arena.codeAt cell = some code) :
    m.Reuses S cell code := by
  intro v a leads config t progress
  rw [requestCode, Arena.requestCode_of_codeAt leads kept]

/-- Requests that lead to the cell, through either view, are refused, since the block ends before it. The
    tools take no part in that. -/
def Refuses (S : Type) (m : Memory L) (cell : Cell) : Prop :=
  ∀ (v : View) (a : Address), (m.directory v).cell? a = some cell →
    ∀ (config : Config) (t : Toolchain S L) (progress : Progress S),
      (m.requestCode config t v a progress).1 = .error (.noCode a (.decode (.outOfBounds cell.offset))) ∧
        (m.requestCode config t v a progress).2.2 = progress

theorem recombines_of_codeAt_none {m : Memory L} {cell : Cell} (covers : m.arena.Covers cell)
    (absent : m.arena.codeAt cell = none) : m.Recombines S cell := by
  obtain ⟨block, found, inside⟩ := covers
  refine ⟨block, found, fun v a leads config t progress => ?_⟩
  exact Arena.requestCode_of_codeAt_none leads found inside absent config t progress

theorem refuses_of_codeAt_none {m : Memory L} {cell : Cell} (overhung : m.arena.Overhung cell)
    (absent : m.arena.codeAt cell = none) : m.Refuses S cell := by
  obtain ⟨block, found, outside⟩ := overhung
  exact fun v a leads config t progress =>
    Arena.requestCode_of_outside leads found outside.short absent config t progress

end Memory

end GuestMemory
