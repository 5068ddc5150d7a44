import GuestMemory.Block.Store
import GuestMemory.Code.Tree
import GuestMemory.Table

/-!
Blocks that keep the code compiled from their bytes, under the offset at which it is entered. A
write evicts all code that it overlaps. Code that spans is not kept, since the cache would not see
writes to its tail. A cache made from firmware is read-only and drops writes.
-/
namespace GuestMemory

@[ext] structure CodeCache (L : Type) [CodeUnit L] where
  contents : Contents
  writable : Bool
  entries : Table (CodeTree L)
  contained : ∀ code ∈ entries.values, code.isSpanning = false
  deriving DecidableEq

namespace CodeCache

variable {L : Type} [CodeUnit L]

def ofContents (contents : Contents) (writable : Bool) : CodeCache L :=
  ⟨contents, writable, ∅, List.forall_mem_nil _⟩

def new : CodeCache L := ofContents (Contents.zeros blockSize) true

def size (cache : CodeCache L) : Nat := cache.contents.size

def cachedCount (cache : CodeCache L) : Nat := cache.entries.size

def codeAt (cache : CodeCache L) (offset : Nat) : Option (CodeTree L) := cache.entries.find? offset

/-- Ends of byte ranges are 64-bit numbers; a range beyond is cut there. -/
def rangeEnd (start length : Nat) : Nat := min (start + length) maxWord64

/-- One line about the cache: its size, whether it accepts writes, and the entry points it holds. -/
def describe (cache : CodeCache L) : String :=
  let points := ", ".intercalate (cache.entries.keys.map toString)
  s!"CodeCacheBlock \x7b size: {cache.size}, writable: {cache.writable}, cached: [{points}] \x7d"

/-- Keeps `code` for `offset`, unless it spans. -/
def insert (cache : CodeCache L) (offset : Nat) (code : CodeTree L) : Option (CodeCache L) :=
  if spans : code.isSpanning = true then none
  else some { cache with
    entries := cache.entries.insert offset code
    contained := by
      rintro other member
      rcases Table.mem_values_insert member with rfl | earlier
      · exact Bool.not_eq_true _ ▸ spans
      · exact cache.contained other earlier }

theorem insert_eq_none {cache : CodeCache L} {offset : Nat} {code : CodeTree L} :
    cache.insert offset code = none ↔ code.isSpanning = true := by
  simp [insert]

theorem insert_eq_some {cache after : CodeCache L} {offset : Nat} {code : CodeTree L}
    (kept : cache.insert offset code = some after) : code.isSpanning = false ∧ after.contents = cache.contents ∧
      after.writable = cache.writable ∧ after.entries = cache.entries.insert offset code := by
  rw [insert] at kept
  split at kept
  · cases kept
  · rename_i contained
    cases kept
    exact ⟨Bool.not_eq_true _ ▸ contained, rfl, rfl, rfl⟩

/-- Whether code entered at `start` has no byte in `length` bytes from `offset` on. -/
def disjointFrom (offset length start : Nat) (code : CodeTree L) : Bool :=
  decide (rangeEnd offset length ≤ start) || decide (rangeEnd start code.byteLength.toNat ≤ offset)

/-- Evicts the code that `keep` does not accept. -/
def restrict (cache : CodeCache L) (keep : Nat → CodeTree L → Bool) : CodeCache L :=
  { cache with
    entries := cache.entries.filter keep
    contained := fun code member => cache.contained code (Table.mem_values_filter member) }

@[simp] theorem contents_restrict (cache : CodeCache L) (keep : Nat → CodeTree L → Bool) :
    (cache.restrict keep).contents = cache.contents := rfl

@[simp] theorem codeAt_restrict (cache : CodeCache L) (keep : Nat → CodeTree L → Bool) (offset : Nat) :
    (cache.restrict keep).codeAt offset = (cache.codeAt offset).filter (keep offset) :=
  cache.entries.find?_filter keep offset

/-- Evicts the code that overlaps the range; an empty range overlaps nothing. -/
def invalidate (cache : CodeCache L) (offset length : Nat) : CodeCache L :=
  if length = 0 then cache else cache.restrict (disjointFrom offset length)

/-- How many entries an invalidation evicts. -/
def evictedCount (cache : CodeCache L) (offset length : Nat) : Nat :=
  cache.cachedCount - (cache.invalidate offset length).cachedCount

def read (cache : CodeCache L) (offset count : Nat) : Except BlockError (List UInt8 × CodeCache L) :=
  (cache.contents.read offset count).map (·, cache)

def write (cache : CodeCache L) (offset : Nat) (bytes : List UInt8) : Except BlockError (CodeCache L) :=
  match checkBounds offset bytes.length cache.size with
  | .error e => .error e
  | .ok () =>
    if cache.writable then
      .ok ({ cache with contents := cache.contents.splice offset bytes }.invalidate offset bytes.length)
    else .ok cache

def clear (cache : CodeCache L) : CodeCache L :=
  { cache with
    contents := if cache.writable then Contents.zeros cache.size else cache.contents
    entries := ∅
    contained := List.forall_mem_nil _ }

instance : ByteStore (CodeCache L) := ⟨size, fun _ => true, read, write, clear⟩

end CodeCache

end GuestMemory
