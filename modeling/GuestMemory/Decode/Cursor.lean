import GuestMemory.Bytes
import GuestMemory.Saturation
import GuestMemory.Text.Hex

/-!
A reader over a window of guest bytes. Offsets count from the start of the window, which is the
first byte of the segment being decoded; the window may go on past that segment, so that an
instruction stream can be followed into the next block. Nothing reads or moves past the window.
-/
namespace GuestMemory

inductive DecodeError where
  /-- Bytes past the end of the window were needed; `offset` is the first of them. -/
  | outOfBounds (offset : Nat)
  | invalidOpcode (opcode : UInt8) (offset : Nat)
  /-- There was no instruction at all. -/
  | empty (offset : Nat)
  deriving DecidableEq, Repr

def DecodeError.message : DecodeError → String
  | outOfBounds offset => "decode ran past the end of the window at offset " ++ Text.hex offset
  | invalidOpcode opcode offset =>
    "invalid opcode " ++ Text.hexByte opcode ++ " at offset " ++ Text.hex offset
  | empty offset => "empty instruction stream at offset " ++ Text.hex offset

structure Cursor where
  window : Contents
  position : Nat
  deriving DecidableEq

namespace Cursor

def ofWindow (window : Contents) : Cursor := ⟨window, 0⟩

def size (c : Cursor) : Nat := c.window.size

def remaining (c : Cursor) : Nat := c.size - c.position

def rewind (c : Cursor) : Cursor := { c with position := 0 }

/-- The end of the window is a position too. -/
def seek (c : Cursor) (offset : Nat) : Except DecodeError Cursor :=
  if offset ≤ c.size then .ok { c with position := offset } else .error (.outOfBounds offset)

/-- A skip to an offset that no 64-bit number holds is reported where it begins. -/
def skip (c : Cursor) (count : Nat) : Except DecodeError Cursor :=
  if c.position + count ≤ maxWord64 then c.seek (c.position + count)
  else .error (.outOfBounds c.position)

def peek (c : Cursor) : Except DecodeError UInt8 :=
  match c.window[c.position]? with
  | some b => .ok b
  | none => .error (.outOfBounds c.position)

/-- The number at the cursor, and the cursor behind it. -/
def read (w : Width) (c : Cursor) : Except DecodeError (w.Value × Cursor) :=
  if c.position + w.size ≤ c.size then
    .ok (w.decode (c.window.slice c.position w.size), { c with position := c.position + w.size })
  else .error (.outOfBounds (min c.size (c.position + w.size)))

end Cursor

end GuestMemory
