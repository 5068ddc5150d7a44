import GuestMemory.Proofs.Block.Code
import GuestMemory.Proofs.Fusion.Extent
import Mathlib.Tactic.SplitIfs

/-!
Cached code against the bytes under it. Code is current if its leaves are what the tools would make
of the contents as they are now (`CurrentCode`). Code that was just made and does not span is current
(`currentCode_of_fused`), stays so while its bytes do (`CurrentCode.congr`), and a write that changes
any of them evicts it.
-/
namespace GuestMemory

open Fusion

variable {S L : Type} [CodeUnit L] {t : Toolchain S L} {contents contents' : Contents}

/-- Making the code at `p` from the contents gives this leaf. The window goes on past the contents, for
    as many bytes as when the leaf was made; which bytes these are does not matter. -/
structure CurrentLeaf (t : Toolchain S L) (contents : Contents) (p : Nat) (unit : L) : Prop where
  inside : p + (CodeUnit.byteLength unit).toNat ≤ contents.size
  remade : ∃ decoded size, decoded.byteLength = (CodeUnit.byteLength unit).toNat ∧
    ∀ (tail : Contents) s, tail.size = size → t.entryAt (contents ++ tail) p s = .ok (decoded, .leaf unit)

/-- Code entered at `offset` lies inside the block, covers all its leaves, and none of them is stale. -/
structure CurrentCode (t : Toolchain S L) (contents : Contents) (offset : Nat) (code : CodeTree L) : Prop where
  end_le : offset + code.byteLength.toNat ≤ min contents.size blockSize
  leaves : ∀ p unit, (p, unit) ∈ code.placed offset → CodeUnit.isSpanning unit = false ∧ offset ≤ p ∧
    p + (CodeUnit.byteLength unit).toNat ≤ offset + code.byteLength.toNat ∧ CurrentLeaf t contents p unit

theorem CurrentLeaf.congr (localTools : t.Local) {p : Nat} {unit : L} (current : CurrentLeaf t contents p unit)
    (sameSize : contents'.size = contents.size)
    (sameBytes : ∀ i, p ≤ i → i < p + (CodeUnit.byteLength unit).toNat → contents'[i]? = contents[i]?) :
    CurrentLeaf t contents' p unit := by
  have inside := current.inside
  obtain ⟨decoded, size, length, remade⟩ := current.remade
  refine ⟨sameSize ▸ inside, decoded, size, length, fun tail s tailSize => ?_⟩
  refine localTools.entryAt_congr (remade tail s tailSize) ?_ ?_ s
  · rw [Array.size_append, Array.size_append, sameSize]
  · intro i above below
    rw [length] at below
    rw [Array.getElem?_append_left (by omega), Array.getElem?_append_left (by omega)]
    exact sameBytes i above below

/-- Code is current as long as the bytes are the same that it covers. -/
theorem CurrentCode.congr (localTools : t.Local) {offset : Nat} {code : CodeTree L}
    (current : CurrentCode t contents offset code) (sameSize : contents'.size = contents.size)
    (sameBytes : ∀ i, offset ≤ i → i < offset + code.byteLength.toNat → contents'[i]? = contents[i]?) :
    CurrentCode t contents' offset code := by
  refine ⟨sameSize ▸ current.end_le, fun p unit member => ?_⟩
  obtain ⟨inside, above, below, leaf⟩ := current.leaves p unit member
  refine ⟨inside, above, below, leaf.congr localTools sameSize fun i low high => ?_⟩
  exact sameBytes i (Nat.le_trans above low) (Nat.lt_of_lt_of_le high below)

/-- Code that was made from the contents, with `tail` after them, is current. Only a block of full size
    is followed by anything, so what does not leave the segment does not leave the contents either. -/
theorem currentCode_of_fused (localTools : t.Local) {tail : Contents}
    (full : contents.size = blockSize ∨ tail = #[]) {config : Config} {s : S} {levels offset : Nat}
    {code : CodeTree L} (fused : Fused config (t.Makes (contents ++ tail) s) levels offset code)
    (inside : code.isSpanning = false) : CurrentCode t contents offset code := by
  have fits : ∀ p decoded entry, t.Makes (contents ++ tail) s p decoded entry →
      ∃ unit, entry = .leaf unit ∧ Fits (contents ++ tail) p decoded unit := by
    rintro p decoded entry ⟨s', _, built⟩
    exact localTools.entryAt_fits built
  have single : Single (t.Makes (contents ++ tail) s) := by
    intro p decoded entry made
    obtain ⟨unit, same, _⟩ := fits p decoded entry made
    exact ⟨unit, same⟩
  have short : ∀ {p decoded} {unit : L}, Fits (contents ++ tail) p decoded unit →
      CodeUnit.isSpanning unit = false →
      p + (CodeUnit.byteLength unit).toNat ≤ min contents.size blockSize := by
    intro p decoded unit fitting contained
    have within := fitting.within
    have segment := of_decide_eq_false (fitting.spanning.symm.trans contained)
    rw [fitting.length]
    rw [Array.size_append] at within
    rcases full with size | rfl
    · omega
    · rw [Array.size_empty] at within
      omega
  refine ⟨?_, fun p unit member => ?_⟩
  · refine fused_end_le (fun p decoded entry made => ?_) fused inside
    obtain ⟨unit, same, fitting⟩ := fits p decoded entry made
    exact ⟨unit, same, short fitting⟩
  · have contained : CodeUnit.isSpanning unit = false := by
      refine fused_contained single fused inside unit ?_
      rw [← code.map_snd_placed offset]
      exact List.mem_map_of_mem member
    obtain ⟨above, below⟩ := fused_covers (fun p decoded entry made => by
      obtain ⟨unit, same, fitting⟩ := fits p decoded entry made
      exact ⟨unit, same, fitting.length ▸ fitting.instructions⟩) fused p unit member
    obtain ⟨decoded, made⟩ := fused_placed single fused p unit member
    obtain ⟨unit', same, fitting⟩ := fits _ _ _ made
    cases same
    have ends := Nat.le_trans (short fitting contained) (Nat.min_le_left _ _)
    obtain ⟨s', _, built⟩ := made
    refine ⟨contained, above, below, ends, decoded, tail.size, fitting.length.symm, fun tail' s'' sameSize => ?_⟩
    refine localTools.entryAt_congr built ?_ (fun i _ high => ?_) s''
    · rw [Array.size_append, Array.size_append, sameSize]
    · rw [fitting.length] at ends
      rw [Array.getElem?_append_left (by omega), Array.getElem?_append_left (by omega)]

/-! ### Caches -/

namespace CodeCache

/-- All code that the cache keeps is current. -/
def UpToDate (t : Toolchain S L) (cache : CodeCache L) : Prop :=
  ∀ offset code, cache.codeAt offset = some code → CurrentCode t cache.contents offset code

theorem upToDate_of_no_entries (t : Toolchain S L) {cache : CodeCache L} (bare : cache.entries = ∅) :
    cache.UpToDate t := by
  intro offset code found
  rw [codeAt, bare] at found
  cases found

/-- Code that a write leaves alone shares no byte with it. -/
theorem disjointFrom_eq_true {offset length start : Nat} {code : CodeTree L}
    (short : start + code.byteLength.toNat ≤ blockSize)
    (disjoint : disjointFrom offset length start code = true) :
    offset + length ≤ start ∨ start + code.byteLength.toNat ≤ offset := by
  rw [disjointFrom, Bool.or_eq_true, decide_eq_true_eq, decide_eq_true_eq] at disjoint
  simp only [rangeEnd, maxWord64, blockSize] at disjoint short
  omega

theorem UpToDate.splice (localTools : t.Local) {cache : CodeCache L} (upToDate : cache.UpToDate t)
    (offset : Nat) (bytes : List UInt8) :
    ({ cache with contents := cache.contents.splice offset bytes }.invalidate offset bytes.length).UpToDate t := by
  intro entered code found
  by_cases nothing : bytes.length = 0
  · obtain rfl := List.eq_nil_of_length_eq_zero nothing
    exact upToDate entered code found
  · rw [invalidate, if_neg nothing] at found ⊢
    rw [codeAt_restrict] at found
    rw [contents_restrict]
    obtain ⟨kept, disjoint⟩ := Option.filter_eq_some_iff.mp found
    have current := upToDate entered code kept
    have inside := current.end_le
    have apart := disjointFrom_eq_true (by omega) disjoint
    refine current.congr localTools (Contents.size_splice _ _ _) fun i above below => ?_
    rw [Contents.getElem?_splice _ _ _ _ (by omega), if_neg (by omega)]

end CodeCache

namespace Block

/-- The block keeps no code that is not current. -/
def UpToDate (t : Toolchain S L) (block : Block L) : Prop :=
  ∀ cache, block.cache? = some cache → cache.UpToDate t

theorem Bare.upToDate {block : Block L} (bare : block.Bare) (t : Toolchain S L) : block.UpToDate t :=
  fun cache found => CodeCache.upToDate_of_no_entries t (bare cache found)

theorem UpToDate.touch {block : Block L} (upToDate : block.UpToDate t) : block.touch.UpToDate t := by
  cases block with
  | cache c => exact upToDate
  | _ => exact (bare_of_cache?_eq_none rfl).upToDate t

theorem UpToDate.patch (localTools : t.Local) {block : Block L} (upToDate : block.UpToDate t) (offset : Nat)
    (bytes : List UInt8) : (block.patch offset bytes).UpToDate t := by
  cases block with
  | cache c =>
    rw [Block.patch]
    split
    · rintro _ ⟨⟩
      exact (upToDate c rfl).splice localTools offset bytes
    · exact upToDate
  | _ => exact (bare_of_cache?_eq_none rfl).upToDate t

theorem UpToDate.currentCode {block : Block L} (upToDate : block.UpToDate t) {offset : Nat} {code : CodeTree L}
    (kept : block.codeAt offset = some code) : CurrentCode t block.contents offset code := by
  cases block with
  | cache c => exact upToDate c rfl offset code kept
  | _ => cases kept

end Block

end GuestMemory
