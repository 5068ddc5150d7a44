import GuestMemory.Memory.CodeRequest

/-!
Guest memory: one arena of blocks under two views, the addresses on the bus and the addresses after
segmentation and paging. The views share blocks by handle, so what happens to a block through one
of them is seen through both.
-/
namespace GuestMemory

open Fusion

inductive View where
  | physical | linear
  deriving DecidableEq, Repr

def View.name : View → String
  | physical => "Physical"
  | linear => "Linear"

structure Memory (L : Type) [CodeUnit L] where
  arena : Arena L
  physical : Directory
  linear : Directory
  deriving DecidableEq

namespace Memory

variable {L : Type} [CodeUnit L]

/-- No blocks, and nothing mapped. -/
def empty : Memory L := ⟨.empty, .empty, .empty⟩

def directory (m : Memory L) : View → Directory
  | .physical => m.physical
  | .linear => m.linear

def setDirectory (m : Memory L) (v : View) (d : Directory) : Memory L :=
  match v with
  | .physical => { m with physical := d }
  | .linear => { m with linear := d }

/-- The directories do not depend on what is stored. -/
@[simp] theorem directory_with_arena (m : Memory L) (arena : Arena L) (v : View) :
    directory { m with arena } v = m.directory v := by
  cases v <;> rfl

/-! ### The memory map -/

/-- Stores a block without mapping it. -/
def install (m : Memory L) (block : Block L) : Handle × Memory L :=
  let (h, arena) := m.arena.insert block
  (h, { m with arena })

/-- Stores a block and places it at one index of both views. -/
def share (m : Memory L) (index : Nat) (block : Block L) : Handle × Memory L :=
  let (h, arena) := m.arena.insert block
  (h, ⟨arena, m.physical.place index h, m.linear.place index h⟩)

/-- Stores a block and maps it in both views. -/
def mapShared (m : Memory L) (index : Nat) (block : Block L) : Except MemoryError (Handle × Memory L) :=
  if index < blockCount then .ok (m.share index block) else .error (.indexOutOfRange index)

/-- Maps a handle in one view, and returns the one it displaces. -/
def map (m : Memory L) (v : View) (index : Nat) (h : Handle) :
    Except MemoryError (Option Handle × Memory L) :=
  ((m.directory v).map index h).map fun (before, d) => (before, m.setDirectory v d)

def unmap (m : Memory L) (v : View) (index : Nat) : Option Handle × Memory L :=
  let (before, d) := (m.directory v).unmap index
  (before, m.setDirectory v d)

/-- Points every slot of one view that holds `old` at `new`, and counts them. Nothing asks whether
    there is a block behind `new`. -/
def redirect (m : Memory L) (v : View) (old new : Handle) : Nat × Memory L :=
  let d := m.directory v
  (d.redirectedCount old new, m.setDirectory v (d.redirect old new))

/-- Points every slot of both views that holds `old` at `new`, and counts them. -/
def replaceBlocks (m : Memory L) (old new : Handle) : Except MemoryError (Nat × Memory L) :=
  match m.arena.get? new with
  | none => .error (.unknownBlock new)
  | some _ =>
    .ok (m.physical.redirectedCount old new + m.linear.redirectedCount old new,
      { m with physical := m.physical.redirect old new, linear := m.linear.redirect old new })

/-- Blocks that an image of `length` bytes takes up. -/
def imageBlocks (length : Nat) : Nat := (length + blockSize - 1) / blockSize

/-- Shares the blocks of an image from `index` on, the last one filled up with open bus. -/
def shareImage (m : Memory L) (index : Nat) (image : List UInt8) : List Handle × Memory L :=
  match image with
  | [] => ([], m)
  | b :: rest =>
    let image := b :: rest
    let (h, m) := m.share index (.rom (.padded (image.take blockSize) openBus))
    let (later, m) := m.shareImage (index + 1) (image.drop blockSize)
    (h :: later, m)
termination_by image.length
decreasing_by
  rw [List.length_drop]
  exact Nat.sub_lt (Nat.succ_pos _) (by decide)

/-- Maps a firmware image in both views, or nothing at all. -/
def loadRom (m : Memory L) (base : Address) (image : List UInt8) :
    Except MemoryError (List Handle × Memory L) :=
  if base.blockOffset ≠ 0 then .error (.misaligned base)
  else if blockCount < base.blockIndex + imageBlocks image.length then
    .error (.indexOutOfRange blockCount)
  else .ok (m.shareImage base.blockIndex image)

/-! ### Access through a view -/

def get (m : Memory L) (v : View) (w : Width) (a : Address) : w.Value × Memory L :=
  let (bytes, arena) := m.arena.load (m.directory v) a w.size
  (w.decode bytes, { m with arena })

def set (m : Memory L) (v : View) (w : Width) (a : Address) (value : w.Value) : Memory L :=
  { m with arena := m.arena.store (m.directory v) a (w.encode value) }

def copyOut (m : Memory L) (v : View) (a : Address) (count : Nat) : List UInt8 × Memory L :=
  let (bytes, arena) := m.arena.copyOut (m.directory v) a count
  (bytes, { m with arena })

def copyIn (m : Memory L) (v : View) (a : Address) (bytes : List UInt8) : Memory L :=
  { m with arena := m.arena.copyIn (m.directory v) a bytes }

/-- Clears every block mapped in the view. -/
def clear (m : Memory L) (v : View) : Memory L :=
  { m with arena := m.arena.clearMapped (m.directory v) }

/-- The code for the entry point at `a`. -/
def requestCode {S : Type} (config : Config) (t : Toolchain S L) (v : View) (a : Address)
    (m : Memory L) (progress : Progress S) :
    Except MemoryError (CodeTree L) × Memory L × Progress S :=
  let (result, arena, progress) := m.arena.requestCode config t (m.directory v) a progress
  (result, { m with arena }, progress)

end Memory

end GuestMemory
