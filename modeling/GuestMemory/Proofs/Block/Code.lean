import GuestMemory.Proofs.Block.Access
import Mathlib.Tactic.SplitIfs

/-!
The code that a block keeps. Reads leave it alone, a clear drops all of it, and a write evicts what
shares a byte with the range that it overwrites (`codeAt_patch_eq_some`). Taken byte by byte, a write
evicts the same code as in one piece, as long as no code is without bytes (`patch_cons`).
-/
namespace GuestMemory

variable {L : Type} [CodeUnit L]

/-! ### Ranges -/

namespace CodeCache

/-- As long as the ends of both ranges are 64-bit numbers, a write of at least one byte leaves alone
    what lies behind it or ends before it. -/
theorem disjointFrom_iff {offset length start : Nat} {code : CodeTree L}
    (nonempty : 0 < length) (fits : offset + length ≤ maxWord64) :
    disjointFrom offset length start code = true ↔
      offset + length ≤ start ∨ start + code.byteLength.toNat ≤ offset := by
  rw [disjointFrom, Bool.or_eq_true, decide_eq_true_eq, decide_eq_true_eq, rangeEnd, rangeEnd]
  omega

/-- Code with bytes that shares none of them with the first part of a range, and none with the rest, shares none with
    the whole. Code without bytes in the middle of the range would be evicted by the whole only. -/
theorem disjointFrom_add {offset first rest start : Nat} {code : CodeTree L} (solid : 0 < code.byteLength.toNat)
    (begun : 0 < first) (more : 0 < rest) (fits : offset + (rest + first) ≤ maxWord64) :
    disjointFrom offset (rest + first) start code =
      (disjointFrom offset first start code && disjointFrom (offset + first) rest start code) := by
  rw [Bool.eq_iff_iff, Bool.and_eq_true, disjointFrom_iff (by omega) fits,
    disjointFrom_iff begun (by omega), disjointFrom_iff more (by omega)]
  omega

end CodeCache

namespace Block

/-- The code that the block keeps, under the offsets at which it is entered. -/
def code : Block L → Table (CodeTree L)
  | cache c => c.entries
  | _ => ∅

def codeAt (block : Block L) (offset : Nat) : Option (CodeTree L) := block.code.find? offset

theorem isSpanning_of_codeAt {block : Block L} {offset : Nat} {code : CodeTree L}
    (kept : block.codeAt offset = some code) : code.isSpanning = false := by
  cases block with
  | cache c => exact c.contained code (Table.mem_values.mpr ⟨offset, kept⟩)
  | _ => cases kept

@[simp] theorem code_touch (block : Block L) : block.touch.code = block.code := by
  cases block <;> rfl

@[simp] theorem codeAt_clear (block : Block L) (offset : Nat) : block.clear.codeAt offset = none := by
  cases block with
  | cache c =>
    rw [clear]
    split <;> rfl
  | _ => rfl

/-! ### Conversion -/

@[simp] theorem entries_toCodeCache (block : Block L) : block.toCodeCache.entries = block.code := by
  cases block <;> rfl

@[simp] theorem contents_toCodeCache (block : Block L) : block.toCodeCache.contents = block.contents := by
  cases block <;> rfl

@[simp] theorem writable_toCodeCache (block : Block L) : block.toCodeCache.writable = block.isWritable := by
  cases block <;> rfl

@[simp] theorem size_toCodeCache (block : Block L) : block.toCodeCache.size = block.size := by
  rw [CodeCache.size, contents_toCodeCache, size_contents]

@[simp] theorem contents_cache_toCodeCache (block : Block L) : (cache block.toCodeCache).contents = block.contents :=
  block.contents_toCodeCache

@[simp] theorem isWritable_cache_toCodeCache (block : Block L) :
    (cache block.toCodeCache).isWritable = block.isWritable := block.writable_toCodeCache

@[simp] theorem size_cache_toCodeCache (block : Block L) : (cache block.toCodeCache).size = block.size :=
  block.size_toCodeCache

/-- Only a block that is a code cache already keeps code. -/
theorem cache_toCodeCache_of_codeAt {block : Block L} {offset : Nat} {code : CodeTree L}
    (kept : block.codeAt offset = some code) : cache block.toCodeCache = block := by
  cases block with
  | cache c => rfl
  | _ => cases kept

/-! ### Writes -/

theorem code_patch (block : Block L) (offset : Nat) (bytes : List UInt8) :
    (block.patch offset bytes).code =
      if block.isWritable ∧ bytes ≠ [] then block.code.filter (CodeCache.disjointFrom offset bytes.length)
      else block.code := by
  cases block with
  | cache c =>
    cases writable : c.writable with
    | false => simp [patch, code, isWritable, writable]
    | true =>
      by_cases nothing : bytes = [] <;>
        simp [patch, code, isWritable, writable, nothing, CodeCache.entries_invalidate]
  | _ => exact (ite_self (∅ : Table (CodeTree L))).symm

/-- A write adds no code. -/
theorem codeAt_of_codeAt_patch {block : Block L} {offset start : Nat} {bytes : List UInt8} {code : CodeTree L}
    (kept : (block.patch offset bytes).codeAt start = some code) : block.codeAt start = some code := by
  rw [codeAt, code_patch] at kept
  split_ifs at kept
  · rw [Table.find?_filter] at kept
    exact (Option.filter_eq_some_iff.mp kept).1
  · exact kept

/-- A write of at least one byte to a block that can be written leaves exactly the code that does not
    share a byte with it. -/
theorem codeAt_patch_eq_some {block : Block L} (writable : block.isWritable = true) {offset start : Nat}
    {bytes : List UInt8} (nonempty : bytes ≠ []) (fits : offset + bytes.length ≤ maxWord64)
    {code : CodeTree L} :
    (block.patch offset bytes).codeAt start = some code ↔ block.codeAt start = some code ∧
      (offset + bytes.length ≤ start ∨ start + code.byteLength.toNat ≤ offset) := by
  rw [codeAt, code_patch, if_pos ⟨writable, nonempty⟩, Table.find?_filter, Option.filter_eq_some_iff,
    CodeCache.disjointFrom_iff (List.length_pos_iff.mpr nonempty) fits]
  rfl

/-- All code that the block keeps has bytes. -/
def Solid (block : Block L) : Prop :=
  ∀ offset code, block.codeAt offset = some code → 0 < code.byteLength.toNat

theorem Solid.patch {block : Block L} (solid : block.Solid) (offset : Nat) (bytes : List UInt8) :
    (block.patch offset bytes).Solid :=
  fun start code kept => solid start code (codeAt_of_codeAt_patch kept)

/-- Writing the first byte and then the rest is writing all of them. -/
theorem patch_cons {block : Block L} (solid : block.Solid) {offset : Nat} {b : UInt8} {rest : List UInt8}
    (fits : offset + (rest.length + 1) ≤ maxWord64) :
    block.patch offset (b :: rest) = (block.patch offset [b]).patch (offset + 1) rest := by
  cases block with
  | cache c =>
    cases writable : c.writable with
    | false => simp [patch, writable]
    | true =>
      have first : (cache c).patch offset [b] =
          cache ({ c with contents := c.contents.splice offset [b] }.invalidate offset 1) := by
        simp [patch, writable]
      rw [first]
      simp only [patch, writable, CodeCache.writable_invalidate, if_true]
      congr 1
      apply CodeCache.ext
      · simp [Contents.splice]
      · simp
      · rcases Nat.eq_zero_or_pos rest.length with nothing | more
        · simp [CodeCache.entries_invalidate, nothing]
        · simp only [CodeCache.entries_invalidate, List.length_cons, Nat.succ_ne_zero, if_false, Nat.ne_of_gt more,
            Table.filter_filter]
          exact Table.filter_congr fun start code kept =>
            CodeCache.disjointFrom_add (solid start code kept) Nat.one_pos more fits
  | _ => rfl

end Block

end GuestMemory
