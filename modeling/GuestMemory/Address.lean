/-!
Guest addresses. The 32-bit address space is cut into 2^20 blocks of 4096 bytes, so an address
is a block index and an offset inside that block. Address arithmetic wraps at 2^32.
-/
namespace GuestMemory

/-- Bits of an address that select a byte inside its block. -/
def blockShift : Nat := 12

def blockSize : Nat := 4096

def blockMask : Nat := blockSize - 1

def addressSpaceBytes : Nat := 0x100000000

/-- Blocks that cover the whole address space. -/
def blockCount : Nat := 0x100000

/-- What the bus returns where no block answers. -/
def openBus : UInt8 := 0xFF

theorem blockSize_eq : blockSize = 1 <<< blockShift := rfl

theorem blockCount_mul_blockSize : blockCount * blockSize = addressSpaceBytes := rfl

abbrev Address := UInt32

namespace Address

def blockIndex (a : Address) : Nat := a.toNat / blockSize

def blockOffset (a : Address) : Nat := a.toNat % blockSize

/-- First address of block `index`; bits beyond the address width are lost. -/
def blockBase (index : Nat) : Address := UInt32.ofNat (index * blockSize)

/-- Bytes from `a` to the end of its block, `a` included. -/
def bytesToBlockEnd (a : Address) : Nat := blockSize - a.blockOffset

/-- First address of the block after the one of `a`. -/
def nextBlock (a : Address) : Address := a + UInt32.ofNat a.bytesToBlockEnd

theorem blockOffset_lt (a : Address) : a.blockOffset < blockSize := Nat.mod_lt _ (by decide)

theorem bytesToBlockEnd_pos (a : Address) : 0 < a.bytesToBlockEnd := Nat.sub_pos_of_lt a.blockOffset_lt

theorem blockIndex_lt (a : Address) : a.blockIndex < blockCount :=
  Nat.div_lt_of_lt_mul (Nat.lt_of_lt_of_eq a.toNat_lt (by decide))

/-- Index and offset determine the address. -/
theorem index_mul_add_offset (a : Address) : a.blockIndex * blockSize + a.blockOffset = a.toNat :=
  Nat.div_add_mod' a.toNat blockSize

end Address

end GuestMemory
