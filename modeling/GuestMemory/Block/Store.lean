import GuestMemory.Bytes
import GuestMemory.Address
import GuestMemory.Text.Hex

/-!
Stores of bytes with checked accesses. An access either fits the store or is rejected with the
range it asked for; a rejected access leaves the store alone. Reading returns the store as well,
because some stores allocate when they are first touched.
-/
namespace GuestMemory

inductive BlockError where
  | outOfBounds (offset width size : Nat)
  deriving DecidableEq, Repr

def BlockError.message : BlockError → String
  | outOfBounds offset width size =>
    s!"access of {width} bytes at offset " ++ Text.hex offset ++ " exceeds block size " ++ Text.hex size

/-- Accepts `width` bytes from `offset` on in a store of `size` bytes. -/
def checkBounds (offset width size : Nat) : Except BlockError Unit :=
  if offset + width ≤ size then .ok () else .error (.outOfBounds offset width size)

class ByteStore (β : Type) where
  size : β → Nat
  /-- Whether storage exists yet. -/
  isAllocated : β → Bool
  read (store : β) (offset count : Nat) : Except BlockError (List UInt8 × β)
  write (store : β) (offset : Nat) (bytes : List UInt8) : Except BlockError β
  clear : β → β

namespace ByteStore

variable {β : Type} [ByteStore β]

/-- Reads a number of the given width. -/
def get (w : Width) (store : β) (offset : Nat) : Except BlockError (w.Value × β) :=
  match read store offset w.size with
  | .error e => .error e
  | .ok (bytes, store) => .ok (w.decode bytes, store)

/-- Writes a number of the given width. -/
def set (w : Width) (store : β) (offset : Nat) (value : w.Value) : Except BlockError β :=
  write store offset (w.encode value)

end ByteStore

namespace Contents

def read (contents : Contents) (offset count : Nat) : Except BlockError (List UInt8) :=
  match checkBounds offset count contents.size with
  | .error e => .error e
  | .ok () => .ok (contents.slice offset count)

def write (contents : Contents) (offset : Nat) (bytes : List UInt8) : Except BlockError Contents :=
  match checkBounds offset bytes.length contents.size with
  | .error e => .error e
  | .ok () => .ok (contents.splice offset bytes)

end Contents

end GuestMemory
