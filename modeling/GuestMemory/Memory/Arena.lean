import GuestMemory.Block.Basic
import GuestMemory.Memory.Error

/-!
The arena owns every block, each in a slot of its own. Slots are never given back, so a handle
stays good; a block that changes its kind does so in its slot, and every directory that holds the
handle sees the change.
-/
namespace GuestMemory

structure Arena (L : Type) [CodeUnit L] where
  slots : Array (Block L)
  deriving DecidableEq

namespace Arena

variable {L : Type} [CodeUnit L]

def empty : Arena L := ⟨#[]⟩

def size (arena : Arena L) : Nat := arena.slots.size

def get? (arena : Arena L) (h : Handle) : Option (Block L) := arena.slots[h.index]?

/-- Stores a block in a new slot. -/
def insert (arena : Arena L) (block : Block L) : Handle × Arena L :=
  (⟨arena.slots.size⟩, ⟨arena.slots.push block⟩)

/-- Puts a block into a slot; a handle without one changes nothing. -/
def put (arena : Arena L) (h : Handle) (block : Block L) : Arena L :=
  ⟨arena.slots.setIfInBounds h.index block⟩

def modify (arena : Arena L) (h : Handle) (f : Block L → Block L) : Arena L :=
  ⟨arena.slots.modify h.index f⟩

/-- Swaps the block in a slot, and returns the one before. -/
def replace (arena : Arena L) (h : Handle) (block : Block L) : Except MemoryError (Block L × Arena L) :=
  match arena.get? h with
  | none => .error (.unknownBlock h)
  | some before => .ok (before, arena.put h block)

/-- Turns the block in a slot into a code cache, if it is none yet. -/
def toCodeCache (arena : Arena L) (h : Handle) : Except MemoryError (CodeCache L × Arena L) :=
  match arena.get? h with
  | none => .error (.unknownBlock h)
  | some block => .ok (block.toCodeCache, arena.put h (.cache block.toCodeCache))

end Arena

end GuestMemory
