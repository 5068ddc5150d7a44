import GuestMemory.Address
import GuestMemory.Fusion.Toolchain

/-!
Handles, by which directories name blocks, and what can go wrong with a memory map. A block that
rejects an access never shows up here: accesses then go byte by byte.
-/
namespace GuestMemory

/-- Names the arena slot of a block, for as long as the arena lives. -/
structure Handle where
  index : Nat
  deriving DecidableEq, Repr

inductive MemoryError where
  /-- No slot has this handle. -/
  | unknownBlock (handle : Handle)
  /-- The block would lie past the address space. -/
  | indexOutOfRange (index : Nat)
  | misaligned (addr : Address)
  | unmapped (addr : Address)
  /-- Not even a leaf could be made for the entry point. -/
  | noCode (addr : Address) (cause : Fusion.CombineError)
  deriving DecidableEq, Repr

namespace MemoryError

def message : MemoryError → String
  | unknownBlock handle => s!"block handle {handle.index} is not owned by this arena"
  | indexOutOfRange index => "block index " ++ Text.hex index ++ " is outside the address space"
  | misaligned addr => "address " ++ Text.hexAddress addr ++ " is not block aligned"
  | unmapped addr => "no block mapped at " ++ Text.hexAddress addr
  | noCode addr cause =>
    "translation at " ++ Text.hexAddress addr ++ " failed: " ++ cause.message

/-- Whether the memory map itself is broken, and not what the guest did with it. -/
def isFatal : MemoryError → Bool
  | unknownBlock _ | indexOutOfRange _ | misaligned _ => true
  | unmapped _ | noCode .. => false

end MemoryError

end GuestMemory
