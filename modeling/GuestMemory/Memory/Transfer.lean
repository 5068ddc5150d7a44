import GuestMemory.Memory.Arena
import GuestMemory.Memory.Directory

/-!
Reading and writing memory through a directory. An access that one block can serve goes to that
block; any other goes byte by byte, each byte to the block at its own address, where a byte that no
block holds reads as open bus and is lost when written. Addresses wrap at the end of the space.
-/
namespace GuestMemory

namespace Arena

variable {L : Type} [CodeUnit L]

def blockAt (arena : Arena L) (d : Directory) (a : Address) : Option (Block L) :=
  (d.handleAt a).bind arena.get?

/-! ### Within one block -/

/-- Reads from the block at `a`, if that block holds all the bytes. -/
def readWithin (d : Directory) (a : Address) (count : Nat) (arena : Arena L) :
    Option (List UInt8 × Arena L) :=
  match d.handleAt a with
  | none => none
  | some h =>
    match arena.get? h with
    | none => none
    | some block =>
      match block.read a.blockOffset count with
      | .error _ => none
      | .ok (bytes, block) => some (bytes, arena.put h block)

/-- Writes to the block at `a`, if that block holds all the bytes. -/
def writeWithin (d : Directory) (a : Address) (bytes : List UInt8) (arena : Arena L) :
    Option (Arena L) :=
  match d.handleAt a with
  | none => none
  | some h =>
    match arena.get? h with
    | none => none
    | some block =>
      match block.write a.blockOffset bytes with
      | .error _ => none
      | .ok block => some (arena.put h block)

/-! ### Byte by byte -/

def loadByte (d : Directory) (a : Address) (arena : Arena L) : UInt8 × Arena L :=
  match arena.readWithin d a 1 with
  | some (bytes, arena) => (bytes.headD openBus, arena)
  | none => (openBus, arena)

def storeByte (d : Directory) (a : Address) (b : UInt8) (arena : Arena L) : Arena L :=
  (arena.writeWithin d a [b]).getD arena

/-- Reads bytes in ascending order of address. -/
def gather (d : Directory) (a : Address) : Nat → Arena L → List UInt8 × Arena L
  | 0, arena => ([], arena)
  | n + 1, arena =>
    let (b, arena) := arena.loadByte d a
    let (rest, arena) := gather d (a + 1) n arena
    (b :: rest, arena)

/-- Writes bytes in ascending order of address. -/
def scatter (d : Directory) (a : Address) : List UInt8 → Arena L → Arena L
  | [], arena => arena
  | b :: rest, arena => scatter d (a + 1) rest (arena.storeByte d a b)

/-! ### Accesses -/

def load (d : Directory) (a : Address) (count : Nat) (arena : Arena L) : List UInt8 × Arena L :=
  (arena.readWithin d a count).getD (arena.gather d a count)

def store (d : Directory) (a : Address) (bytes : List UInt8) (arena : Arena L) : Arena L :=
  (arena.writeWithin d a bytes).getD (arena.scatter d a bytes)

/-- Reads any number of bytes, block after block. -/
def copyOut (d : Directory) (a : Address) (count : Nat) (arena : Arena L) : List UInt8 × Arena L :=
  if count = 0 then ([], arena)
  else
    let (bytes, arena) := arena.load d a (min a.bytesToBlockEnd count)
    let (rest, arena) := copyOut d a.nextBlock (count - a.bytesToBlockEnd) arena
    (bytes ++ rest, arena)
termination_by count
decreasing_by exact Nat.sub_lt (Nat.pos_of_ne_zero ‹_›) a.bytesToBlockEnd_pos

/-- Writes any number of bytes, block after block. -/
def copyIn (d : Directory) (a : Address) (bytes : List UInt8) (arena : Arena L) : Arena L :=
  match bytes with
  | [] => arena
  | b :: rest =>
    let bytes := b :: rest
    copyIn d a.nextBlock (bytes.drop a.bytesToBlockEnd) (arena.store d a (bytes.take a.bytesToBlockEnd))
termination_by bytes.length
decreasing_by
  rw [List.length_drop]
  exact Nat.sub_lt (Nat.succ_pos _) a.bytesToBlockEnd_pos

/-- Clears every block that the directory names, in the order of their places. -/
def clearMapped (d : Directory) (arena : Arena L) : Arena L :=
  d.handles.foldl (fun arena h => arena.modify h Block.clear) arena

end Arena

end GuestMemory
