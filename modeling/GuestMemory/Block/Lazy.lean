import GuestMemory.Block.Store

/-!
Blocks that get their storage when they are first touched. Until then every byte is zero, so an
untouched block has the same contents as one of zeros.
-/
namespace GuestMemory

inductive LazyBlock where
  | untouched (size : Nat)
  | touched (contents : Contents)
  deriving DecidableEq

namespace LazyBlock

/-- An untouched block of `size` bytes, one block at most. -/
def withSize (size : Nat) : LazyBlock := untouched (min size blockSize)

def new : LazyBlock := withSize blockSize

def contents : LazyBlock → Contents
  | untouched size => Contents.zeros size
  | touched contents => contents

def size : LazyBlock → Nat
  | untouched size => size
  | touched contents => contents.size

def isAllocated : LazyBlock → Bool
  | untouched _ => false
  | touched _ => true

def read (block : LazyBlock) (offset count : Nat) : Except BlockError (List UInt8 × LazyBlock) :=
  match checkBounds offset count block.size with
  | .error e => .error e
  | .ok () => .ok (block.contents.slice offset count, touched block.contents)

def write (block : LazyBlock) (offset : Nat) (bytes : List UInt8) : Except BlockError LazyBlock :=
  match checkBounds offset bytes.length block.size with
  | .error e => .error e
  | .ok () => .ok (touched (block.contents.splice offset bytes))

/-- Gives the storage up. -/
def clear (block : LazyBlock) : LazyBlock := untouched block.size

instance : ByteStore LazyBlock := ⟨size, isAllocated, read, write, clear⟩

@[simp] theorem size_contents (block : LazyBlock) : block.contents.size = block.size := by
  cases block <;> simp [contents, size, Contents.zeros]

end LazyBlock

end GuestMemory
