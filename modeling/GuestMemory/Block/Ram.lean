import GuestMemory.Block.Store

/-!
Blocks whose storage exists from the start: writable memory, and firmware, which drops writes and
survives a clear because it belongs to the machine and not to the guest.
-/
namespace GuestMemory

structure RamBlock where
  contents : Contents
  deriving DecidableEq

namespace RamBlock

def new : RamBlock := ⟨Contents.zeros blockSize⟩

def read (block : RamBlock) (offset count : Nat) : Except BlockError (List UInt8 × RamBlock) :=
  (block.contents.read offset count).map (·, block)

def write (block : RamBlock) (offset : Nat) (bytes : List UInt8) : Except BlockError RamBlock :=
  (block.contents.write offset bytes).map RamBlock.mk

def clear (block : RamBlock) : RamBlock := ⟨Contents.zeros block.contents.size⟩

instance : ByteStore RamBlock := ⟨fun block => block.contents.size, fun _ => true, read, write, clear⟩

end RamBlock

structure RomBlock where
  contents : Contents
  deriving DecidableEq

namespace RomBlock

/-- The image, cut to one block. -/
def ofImage (image : List UInt8) : RomBlock := ⟨(image.take blockSize).toArray⟩

/-- A whole block: the image, and `fill` after it. -/
def padded (image : List UInt8) (fill : UInt8) : RomBlock :=
  ⟨(image.take blockSize ++ List.replicate (blockSize - image.length) fill).toArray⟩

def read (block : RomBlock) (offset count : Nat) : Except BlockError (List UInt8 × RomBlock) :=
  (block.contents.read offset count).map (·, block)

/-- A write inside the block is accepted and dropped. -/
def write (block : RomBlock) (offset : Nat) (bytes : List UInt8) : Except BlockError RomBlock :=
  (checkBounds offset bytes.length block.contents.size).map fun _ => block

instance : ByteStore RomBlock := ⟨fun block => block.contents.size, fun _ => true, read, write, id⟩

end RomBlock

end GuestMemory
