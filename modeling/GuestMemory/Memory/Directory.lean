import GuestMemory.Memory.Error
import GuestMemory.Table

/-!
Directories: for each block of the address space that has one, the handle of the block behind it.
One handle may stand at any number of places.
-/
namespace GuestMemory

structure Directory where
  slots : Table Handle
  deriving DecidableEq

namespace Directory

def empty : Directory := ⟨∅⟩

def handleForIndex (d : Directory) (index : Nat) : Option Handle := d.slots.find? index

def handleAt (d : Directory) (a : Address) : Option Handle := d.handleForIndex a.blockIndex

def handles (d : Directory) : List Handle := d.slots.values

def mappedCount (d : Directory) : Nat := d.slots.size

def place (d : Directory) (index : Nat) (h : Handle) : Directory := ⟨d.slots.insert index h⟩

/-- Maps `h` at block `index`, and returns the handle it displaces. -/
def map (d : Directory) (index : Nat) (h : Handle) : Except MemoryError (Option Handle × Directory) :=
  if index < blockCount then .ok (d.handleForIndex index, d.place index h)
  else .error (.indexOutOfRange index)

/-- Removes and returns the handle at block `index`. -/
def unmap (d : Directory) (index : Nat) : Option Handle × Directory :=
  (d.handleForIndex index, ⟨d.slots.erase index⟩)

/-- Points every slot that holds `old` at `new`. -/
def redirect (d : Directory) (old new : Handle) : Directory :=
  ⟨d.slots.map fun h => if h = old then new else h⟩

/-- How many slots a redirection changes. -/
def redirectedCount (d : Directory) (old new : Handle) : Nat :=
  if old = new then 0 else d.handles.count old

end Directory

end GuestMemory
