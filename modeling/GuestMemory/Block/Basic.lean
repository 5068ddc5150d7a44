import GuestMemory.Block.CodeCache
import GuestMemory.Block.Lazy
import GuestMemory.Block.Ram

/-!
The blocks that back guest memory. Any block can become a code cache that keeps its bytes, and its
writability, under the code compiled from them.
-/
namespace GuestMemory

inductive Block (L : Type) [CodeUnit L] where
  | lazy (block : LazyBlock)
  | ram (block : RamBlock)
  | rom (block : RomBlock)
  | cache (block : CodeCache L)
  deriving DecidableEq

namespace Block

variable {L : Type} [CodeUnit L]

/-- An untouched block of full size. -/
def fresh : Block L := lazy LazyBlock.new

def kindName : Block L → String
  | lazy _ => "lazy"
  | ram _ => "ram"
  | rom _ => "rom"
  | cache _ => "code-cache"

def cache? : Block L → Option (CodeCache L)
  | cache c => some c
  | _ => none

/-- The bytes that reads would return, whether they are allocated or not. -/
def contents : Block L → Contents
  | lazy b => b.contents
  | ram b => b.contents
  | rom b => b.contents
  | cache c => c.contents

def isWritable : Block L → Bool
  | lazy _ => true
  | ram _ => true
  | rom _ => false
  | cache c => c.writable

/-- The same bytes as a code cache; a block that is one already keeps its code. -/
def toCodeCache : Block L → CodeCache L
  | lazy b => .ofContents b.contents true
  | ram b => .ofContents b.contents true
  | rom b => .ofContents b.contents false
  | cache c => c

def size : Block L → Nat
  | lazy b => b.size
  | ram b => b.contents.size
  | rom b => b.contents.size
  | cache c => c.size

def isAllocated : Block L → Bool
  | lazy b => b.isAllocated
  | _ => true

def read (block : Block L) (offset count : Nat) : Except BlockError (List UInt8 × Block L) :=
  match block with
  | lazy b => (b.read offset count).map fun (bytes, b) => (bytes, lazy b)
  | ram b => (b.read offset count).map fun (bytes, b) => (bytes, ram b)
  | rom b => (b.read offset count).map fun (bytes, b) => (bytes, rom b)
  | cache c => (c.read offset count).map fun (bytes, c) => (bytes, cache c)

def write (block : Block L) (offset : Nat) (bytes : List UInt8) : Except BlockError (Block L) :=
  match block with
  | lazy b => (b.write offset bytes).map lazy
  | ram b => (b.write offset bytes).map ram
  | rom b => (b.write offset bytes).map rom
  | cache c => (c.write offset bytes).map cache

/-- A writable code cache goes back to an untouched block and loses its code; one made from
    firmware keeps its bytes. -/
def clear : Block L → Block L
  | lazy b => lazy b.clear
  | ram b => ram b.clear
  | rom b => rom b
  | cache c => if c.writable then fresh else cache c.clear

instance : ByteStore (Block L) := ⟨size, isAllocated, read, write, clear⟩

@[simp] theorem size_contents (block : Block L) : block.contents.size = block.size := by
  cases block <;> simp [contents, size, CodeCache.size]

end Block

end GuestMemory
