import GuestMemory.Proofs.Block.Code
import GuestMemory.Proofs.Memory.Flat
import Mathlib.Tactic.SplitIfs

/-!
Code against writes. Code is kept in the cell at which it is entered, and goes when one of its bytes is
written: when the write reaches a cell under the code whose block can be written. This is all that any
write does to code (`Evicts`), whether a block took it in one piece or it went byte by byte, and through
whatever directory it came.
-/
namespace GuestMemory

variable {L : Type} [CodeUnit L]

namespace Directory

/-- One of `count` addresses from `a` on leads to the cell. -/
def LeadsTo (d : Directory) (a : Address) (count : Nat) (cell : Cell) : Prop :=
  ∃ i < count, d.cell? (a + UInt32.ofNat i) = some cell

theorem leadsTo_one {d : Directory} {a : Address} {cell : Cell} :
    d.LeadsTo a 1 cell ↔ d.cell? a = some cell := by
  simp [LeadsTo]

theorem leadsTo_add (d : Directory) (a : Address) (count later : Nat) (cell : Cell) :
    d.LeadsTo a (count + later) cell ↔
      d.LeadsTo a count cell ∨ d.LeadsTo (a + UInt32.ofNat count) later cell := by
  constructor
  · rintro ⟨i, short, leads⟩
    by_cases early : i < count
    · exact .inl ⟨i, early, leads⟩
    · refine .inr ⟨i - count, by omega, ?_⟩
      rwa [UInt32.add_assoc, ← UInt32.ofNat_add, Nat.add_sub_cancel' (Nat.le_of_not_lt early)]
  · rintro (⟨i, short, leads⟩ | ⟨i, short, leads⟩)
    · exact ⟨i, by omega, leads⟩
    · refine ⟨count + i, by omega, ?_⟩
      rwa [UInt32.ofNat_add, ← UInt32.add_assoc]

/-- Addresses of one block lead to one piece of storage. -/
theorem leadsTo_within {d : Directory} {a : Address} {count : Nat} {h : Handle} (mapped : d.handleAt a = some h)
    (inside : a.blockOffset + count ≤ blockSize) (cell : Cell) :
    d.LeadsTo a count cell ↔
      cell.handle = h ∧ a.blockOffset ≤ cell.offset ∧ cell.offset < a.blockOffset + count := by
  constructor
  · rintro ⟨i, short, leads⟩
    obtain ⟨there, same⟩ := cell?_eq_some.mp leads
    rw [handleAt_add (by omega), mapped] at there
    rw [Address.blockOffset_add (by omega)] at same
    exact ⟨(Option.some.inj there).symm, by omega, by omega⟩
  · rintro ⟨same, above, below⟩
    refine ⟨cell.offset - a.blockOffset, by omega, ?_⟩
    rw [cell?_eq_some, handleAt_add (by omega), Address.blockOffset_add (by omega), mapped, same]
    exact ⟨rfl, by omega⟩

end Directory

namespace Arena

/-! ### The code in a cell -/

/-- The code that is entered at a cell, as far as it is kept. -/
def codeAt (arena : Arena L) (cell : Cell) : Option (CodeTree L) :=
  (arena.get? cell.handle).bind (·.codeAt cell.offset)

theorem codeAt_of_get? {arena : Arena L} {cell : Cell} {block : Block L}
    (found : arena.get? cell.handle = some block) :
    arena.codeAt cell = block.codeAt cell.offset := by
  rw [codeAt, found, Option.bind_some]

/-- A block with other code changes the code in its own cells. -/
theorem codeAt_put {arena : Arena L} {h : Handle} {block : Block L} (found : arena.get? h = some block)
    (block' : Block L) (cell : Cell) :
    (arena.put h block').codeAt cell = if cell.handle = h then block'.codeAt cell.offset else arena.codeAt cell := by
  rw [codeAt, get?_put]
  by_cases same : cell.handle = h
  · rw [if_pos same, if_pos same, found, Option.map_some, Option.bind_some]
  · rw [if_neg same, if_neg same, codeAt]

/-- Clearing what a directory names drops the code of all blocks that it names, and of no other. -/
theorem codeAt_clearMapped (d : Directory) (arena : Arena L) (cell : Cell) :
    (arena.clearMapped d).codeAt cell = if cell.handle ∈ d.handles then none else arena.codeAt cell := by
  rw [codeAt, clearMapped_eq, get?_clearAll]
  by_cases listed : cell.handle ∈ d.handles
  · rw [if_pos listed, if_pos listed]
    cases arena.get? cell.handle with
    | none => rfl
    | some block => exact block.codeAt_clear cell.offset
  · rw [if_neg listed, if_neg listed, codeAt]

/-! ### Writes -/

/-- A write to the given cells changes one of the `length` bytes from the cell on. -/
def Struck (arena : Arena L) (reached : Cell → Prop) (cell : Cell) (length : Nat) : Prop :=
  ∃ i < length, arena.Accepts ⟨cell.handle, cell.offset + i⟩ ∧ reached ⟨cell.handle, cell.offset + i⟩

theorem struck_or (arena : Arena L) (first second : Cell → Prop) (cell : Cell) (length : Nat) :
    arena.Struck (fun cell => first cell ∨ second cell) cell length ↔
      arena.Struck first cell length ∨ arena.Struck second cell length := by
  constructor
  · rintro ⟨i, short, accepts, reached | reached⟩
    · exact .inl ⟨i, short, accepts, reached⟩
    · exact .inr ⟨i, short, accepts, reached⟩
  · rintro (⟨i, short, accepts, reached⟩ | ⟨i, short, accepts, reached⟩)
    · exact ⟨i, short, accepts, .inl reached⟩
    · exact ⟨i, short, accepts, .inr reached⟩

theorem SameShape.struck {before after : Arena L} (same : SameShape before after) (reached : Cell → Prop)
    (cell : Cell) (length : Nat) : after.Struck reached cell length ↔ before.Struck reached cell length := by
  simp only [Struck, same.accepts]

/-- The cells that a store of `count` bytes goes to. The block at the address takes all of them if it has
    room, even if it is longer than its addresses are; else each byte goes to the cell at its own address. -/
inductive StoreReaches (arena : Arena L) (d : Directory) (a : Address) (count : Nat) : Cell → Prop
  | whole {h block i} (mapped : d.handleAt a = some h) (found : arena.get? h = some block)
    (room : a.blockOffset + count ≤ block.size) (short : i < count) :
    StoreReaches arena d a count ⟨h, a.blockOffset + i⟩
  | bytewise {cell} (crowded : ∀ h block, d.handleAt a = some h → arena.get? h = some block →
    block.size < a.blockOffset + count) (leads : d.LeadsTo a count cell) : StoreReaches arena d a count cell

theorem storeReaches_of_room {arena : Arena L} {d : Directory} {a : Address} {count : Nat} {h : Handle}
    {block : Block L} (mapped : d.handleAt a = some h) (found : arena.get? h = some block)
    (room : a.blockOffset + count ≤ block.size) (cell : Cell) :
    arena.StoreReaches d a count cell ↔
      cell.handle = h ∧ a.blockOffset ≤ cell.offset ∧ cell.offset < a.blockOffset + count := by
  constructor
  · intro reaches
    cases reaches with
    | whole mapped' _ _ short => exact ⟨Option.some.inj (mapped'.symm.trans mapped), by simp, by simpa using short⟩
    | bytewise crowded _ =>
      have tooShort := crowded h block mapped found
      omega
  · rintro ⟨same, above, below⟩
    have whole : arena.StoreReaches d a count ⟨h, a.blockOffset + (cell.offset - a.blockOffset)⟩ :=
      .whole mapped found room (by omega)
    rwa [Nat.add_sub_cancel' above, ← same] at whole

theorem storeReaches_of_crowded {arena : Arena L} {d : Directory} {a : Address} {count : Nat}
    (crowded : ∀ h block, d.handleAt a = some h → arena.get? h = some block → block.size < a.blockOffset + count)
    (cell : Cell) : arena.StoreReaches d a count cell ↔ d.LeadsTo a count cell := by
  constructor
  · intro reaches
    cases reaches with
    | whole mapped found room _ =>
      have tooShort := crowded _ _ mapped found
      omega
    | bytewise _ leads => exact leads
  · exact .bytewise crowded

/-- What a write to the given cells does to code: it adds none, and of the code that has bytes it keeps
    what it does not change a byte of. -/
structure Evicts (reached : Cell → Prop) (before after : Arena L) : Prop where
  shape : SameShape before after
  added : ∀ cell code, after.codeAt cell = some code → before.codeAt cell = some code
  kept : ∀ cell code, before.codeAt cell = some code → 0 < code.byteLength.toNat →
    (after.codeAt cell = some code ↔ ¬ before.Struck reached cell code.byteLength.toNat)

theorem evicts_refl {reached : Cell → Prop} {arena : Arena L}
    (nowhere : ∀ cell, arena.Accepts cell → ¬ reached cell) : Evicts reached arena arena where
  shape := .refl keptByAccesses_shape.refl arena
  added _ _ := id
  kept cell code found _ := by
    refine iff_of_true found ?_
    rintro ⟨i, _, accepts, reached⟩
    exact nowhere _ accepts reached

theorem Evicts.congr {reached reached' : Cell → Prop} {before after : Arena L} (evicts : Evicts reached before after)
    (same : ∀ cell, reached cell ↔ reached' cell) : Evicts reached' before after := by
  rwa [← funext fun cell => propext (same cell)]

theorem Evicts.append {reached later : Cell → Prop} {first second third : Arena L}
    (here : Evicts reached first second) (there : Evicts later second third) :
    Evicts (fun cell => reached cell ∨ later cell) first third where
  shape := here.shape.trans keptByAccesses_shape.trans there.shape
  added cell code kept := here.added cell code (there.added cell code kept)
  kept cell code found solid := by
    rw [struck_or, not_or, ← here.kept cell code found solid, ← here.shape.struck]
    constructor
    · intro kept
      have between := there.added cell code kept
      exact ⟨between, (there.kept cell code between solid).mp kept⟩
    · rintro ⟨between, spared⟩
      exact (there.kept cell code between solid).mpr spared

/-- Two ranges of at least one byte that do not share any lie behind one another. -/
theorem apart_iff {offset length start count size : Nat} (nonempty : 0 < length) (solid : 0 < count)
    (fits : offset + length ≤ size) :
    (offset + length ≤ start ∨ start + count ≤ offset) ↔
      ¬ ∃ i < count, start + i < size ∧ offset ≤ start + i ∧ start + i < offset + length := by
  constructor
  · rintro apart ⟨i, short, _, above, below⟩
    omega
  · intro apart
    refine Decidable.byContradiction fun overlap => apart ⟨max offset start - start, ?_⟩
    omega

/-- A block that takes a write in one piece is written at one piece of storage. -/
theorem evicts_put {arena : Arena L} {h : Handle} {block : Block L} (found : arena.get? h = some block)
    {offset : Nat} {bytes : List UInt8} (nonempty : bytes ≠ []) (fits : offset + bytes.length ≤ block.size)
    (short : offset + bytes.length ≤ maxWord64) :
    Evicts (fun cell => cell.handle = h ∧ offset ≤ cell.offset ∧ cell.offset < offset + bytes.length)
      arena (arena.put h (block.patch offset bytes)) where
  shape := related_put keptByAccesses_shape.refl found (keptByAccesses_shape.patch block offset bytes fits)
  added cell code kept := by
    rw [codeAt_put found] at kept
    by_cases same : cell.handle = h
    · rw [if_pos same] at kept
      rw [codeAt_of_get? (same ▸ found)]
      exact Block.codeAt_of_codeAt_patch kept
    · rwa [if_neg same] at kept
  kept cell code kept solid := by
    rw [codeAt_put found]
    by_cases same : cell.handle = h
    · subst same
      rw [codeAt_of_get? found] at kept
      rw [if_pos rfl]
      cases writable : block.isWritable with
      | true =>
        have length : 0 < bytes.length := List.length_pos_iff.mpr nonempty
        rw [Block.codeAt_patch_eq_some writable nonempty short, and_iff_right kept, apart_iff length solid fits]
        simp [Struck, Accepts, found, writable]
      | false =>
        have spared : (block.patch offset bytes).codeAt cell.offset = some code := by
          rw [Block.codeAt, Block.code_patch, if_neg (by simp [writable])]
          exact kept
        refine iff_of_true spared ?_
        rintro ⟨i, _, ⟨other, found', accepts, _⟩, _⟩
        rw [found] at found'
        cases found'
        rw [writable] at accepts
        cases accepts
    · rw [if_neg same]
      refine iff_of_true kept ?_
      rintro ⟨i, _, _, elsewhere, _⟩
      exact same elsewhere

theorem writeRule_evicts (d : Directory) : WriteRule (L := L) d fun a bytes before after =>
    Evicts (d.LeadsTo a bytes.length) before after where
  nil a arena := evicts_refl fun _ _ ⟨_, short, _⟩ => absurd short (Nat.not_lt_zero _)
  append {a bytes later first second third} here there := by
    refine (here.append there).congr fun cell => ?_
    rw [List.length_append, Directory.leadsTo_add]
  accepted {a bytes arena after} nonempty inside accepted := by
    obtain ⟨h, block, mapped, found, fits, rfl⟩ := writeWithin_eq_some.mp accepted
    refine (evicts_put found nonempty fits ?_).congr fun cell => (Directory.leadsTo_within mapped inside cell).symm
    exact Nat.le_trans inside (by decide)
  dropped {a b arena} rejected := by
    refine evicts_refl fun cell accepts leads => ?_
    exact not_accepts_of_dropped rejected (Directory.leadsTo_one.mp leads) accepts

theorem store_evicts (arena : Arena L) (d : Directory) (a : Address) {bytes : List UInt8} (nonempty : bytes ≠ [])
    (short : bytes.length ≤ blockSize) :
    Evicts (arena.StoreReaches d a bytes.length) arena (arena.store d a bytes) := by
  rw [store]
  cases accepted : arena.writeWithin d a bytes with
  | none =>
    have crowded : ∀ h block, d.handleAt a = some h → arena.get? h = some block →
        block.size < a.blockOffset + bytes.length := fun _ _ => writeWithin_eq_none accepted
    exact ((writeRule_evicts d).scatter bytes arena a).congr fun cell => (storeReaches_of_crowded crowded cell).symm
  | some after =>
    obtain ⟨h, block, mapped, found, fits, rfl⟩ := writeWithin_eq_some.mp accepted
    have bound := a.blockOffset_lt
    refine (evicts_put found nonempty fits ?_).congr fun cell => (storeReaches_of_room mapped found fits cell).symm
    simp only [blockSize, maxWord64] at bound short ⊢
    omega

theorem store_encode_evicts (arena : Arena L) (d : Directory) (a : Address) (w : Width) (value : w.Value) :
    Evicts (arena.StoreReaches d a w.size) arena (arena.store d a (w.encode value)) := by
  have evicts := arena.store_evicts d a (w.encode_ne_nil value) (by rw [w.length_encode]; cases w <;> decide)
  rwa [w.length_encode] at evicts

theorem copyIn_evicts (arena : Arena L) (d : Directory) (a : Address) (bytes : List UInt8) :
    Evicts (d.LeadsTo a bytes.length) arena (arena.copyIn d a bytes) :=
  (writeRule_evicts d).copyIn a bytes arena

end Arena

end GuestMemory
