import GuestMemory.Proofs.Block.Code
import GuestMemory.Proofs.Fusion.Toy
import GuestMemory.Proofs.Table

/-!
What an invalidation evicts. Code that is kept in a cache may overlap other code, lie inside it, or end where other code
begins; an invalidation evicts just what has a byte in the range, wherever it is entered (`invalidated_invalidate`), and
counts it. So it makes no difference whether a range is invalidated as a whole or in two parts (`invalidate_add`).
-/
namespace GuestMemory.CodeCache

variable {L : Type} [CodeUnit L]

/-- Code entered at `start` has a byte in common with the range of `length` bytes from `offset` on. -/
def SharesByte (offset length start : Nat) (code : CodeTree L) : Prop :=
  ∃ byte, (start ≤ byte ∧ byte < start + code.byteLength.toNat) ∧ offset ≤ byte ∧ byte < offset + length

theorem sharesByte_iff {offset length start : Nat} {code : CodeTree L} (solid : 0 < code.byteLength.toNat)
    (nonempty : 0 < length) :
    SharesByte offset length start code ↔ start < offset + length ∧ offset < start + code.byteLength.toNat := by
  constructor
  · rintro ⟨byte, ⟨from_start, before_end⟩, from_offset, inside⟩
    omega
  · intro meets
    exact ⟨max start offset, by omega, by omega⟩

theorem not_sharesByte_empty (offset start : Nat) (code : CodeTree L) : ¬ SharesByte offset 0 start code := by
  rintro ⟨byte, -, from_offset, inside⟩
  omega

theorem disjointFrom_eq_false {offset length start : Nat} {code : CodeTree L} (solid : 0 < code.byteLength.toNat)
    (nonempty : 0 < length) (fits : offset + length ≤ maxWord64) :
    disjointFrom offset length start code = false ↔ SharesByte offset length start code := by
  rw [← Bool.not_eq_true, disjointFrom_iff nonempty fits, sharesByte_iff solid nonempty]
  omega

/-- All code in the cache has bytes. -/
def Solid (cache : CodeCache L) : Prop :=
  ∀ start code, cache.codeAt start = some code → 0 < code.byteLength.toNat

/-- What an invalidation of a range makes of a cache, and the number that it returns. -/
structure Invalidated (cache : CodeCache L) (offset length : Nat) (after : CodeCache L) (count : Nat) : Prop where
  kept : ∀ start code, after.codeAt start = some code ↔
    cache.codeAt start = some code ∧ ¬ SharesByte offset length start code
  contents : after.contents = cache.contents
  writable : after.writable = cache.writable
  count : count = {start | ∃ code, cache.codeAt start = some code ∧ SharesByte offset length start code}.ncard

theorem invalidate_zero (cache : CodeCache L) (offset : Nat) : cache.invalidate offset 0 = cache := if_pos rfl

theorem invalidate_of_pos (cache : CodeCache L) (offset : Nat) {length : Nat} (nonempty : 0 < length) :
    cache.invalidate offset length = cache.restrict (disjointFrom offset length) :=
  if_neg (Nat.ne_of_gt nonempty)

theorem codeAt_invalidate {cache : CodeCache L} (solid : cache.Solid) {offset length : Nat}
    (fits : offset + length ≤ maxWord64) (start : Nat) (code : CodeTree L) :
    (cache.invalidate offset length).codeAt start = some code ↔
      cache.codeAt start = some code ∧ ¬ SharesByte offset length start code := by
  rcases Nat.eq_zero_or_pos length with rfl | nonempty
  · rw [invalidate_zero, iff_self_and]
    exact fun _ => not_sharesByte_empty offset start code
  · rw [invalidate_of_pos cache offset nonempty, codeAt_restrict, Option.filter_eq_some_iff]
    refine and_congr_right fun kept => ?_
    rw [← disjointFrom_eq_false (solid start code kept) nonempty fits, Bool.not_eq_false]

/-- What is evicted is counted once for each offset at which it is entered. -/
theorem evictedCount_eq {cache : CodeCache L} (solid : cache.Solid) {offset length : Nat}
    (fits : offset + length ≤ maxWord64) : cache.evictedCount offset length =
      {start | ∃ code, cache.codeAt start = some code ∧ SharesByte offset length start code}.ncard := by
  rcases Nat.eq_zero_or_pos length with rfl | nonempty
  · simp [evictedCount, invalidate_zero, not_sharesByte_empty]
  · have both := cache.entries.size_filter_not (disjointFrom offset length)
    have evicted : cache.evictedCount offset length =
        (cache.entries.filter fun start code => !disjointFrom offset length start code).size := by
      rw [evictedCount, invalidate_of_pos cache offset nonempty]
      show cache.entries.size - (cache.entries.filter (disjointFrom offset length)).size = _
      omega
    rw [evicted, ← Table.ncard_filter]
    congr 1
    ext start
    refine exists_congr fun code => and_congr_right fun kept => ?_
    rw [Bool.not_eq_true', disjointFrom_eq_false (solid start code kept) nonempty fits]

theorem invalidated_invalidate {cache : CodeCache L} (solid : cache.Solid) {offset length : Nat}
    (fits : offset + length ≤ maxWord64) :
    cache.Invalidated offset length (cache.invalidate offset length) (cache.evictedCount offset length) where
  kept := codeAt_invalidate solid fits
  contents := cache.contents_invalidate offset length
  writable := cache.writable_invalidate offset length
  count := evictedCount_eq solid fits

/-- A range can be invalidated in two parts, the first one first. -/
theorem invalidate_add {cache : CodeCache L} (solid : cache.Solid) {offset first rest : Nat}
    (fits : offset + (rest + first) ≤ maxWord64) :
    (cache.invalidate offset first).invalidate (offset + first) rest = cache.invalidate offset (rest + first) := by
  rcases Nat.eq_zero_or_pos first with rfl | begun
  · rw [invalidate_zero]
    rfl
  · rcases Nat.eq_zero_or_pos rest with rfl | more
    · rw [invalidate_zero, Nat.zero_add]
    · rw [invalidate_of_pos _ _ more, invalidate_of_pos _ _ begun, invalidate_of_pos _ _ (by omega)]
      refine CodeCache.ext rfl rfl ((cache.entries.filter_filter _ _).trans (Table.filter_congr ?_))
      exact fun start code kept => (disjointFrom_add (solid start code kept) begun more fits).symm

theorem cachedCount_invalidate_le (cache : CodeCache L) (offset length : Nat) :
    (cache.invalidate offset length).cachedCount ≤ cache.cachedCount := by
  rcases Nat.eq_zero_or_pos length with rfl | nonempty
  · rw [invalidate_zero]
  · rw [invalidate_of_pos cache offset nonempty]
    exact List.length_filter_le ..

/-- An invalidation evicts exactly the code that has a byte in the range, whatever other code is there, and reports how
    much that was; invalidating two ranges, of which the second begins where the first ends, is invalidating both as
    one. -/
theorem invalidate_exact {cache : CodeCache L} (solid : cache.Solid) :
    (∀ offset length, offset + length ≤ maxWord64 →
      cache.Invalidated offset length (cache.invalidate offset length) (cache.evictedCount offset length)) ∧
    ∀ a b c, a ≤ b → b ≤ c → c ≤ maxWord64 →
      (cache.invalidate a (b - a)).invalidate b (c - b) = cache.invalidate a (c - a) ∧
        cache.evictedCount a (b - a) + (cache.invalidate a (b - a)).evictedCount b (c - b) =
          cache.evictedCount a (c - a) := by
  refine ⟨fun offset length fits => invalidated_invalidate solid fits, fun a b c ab bc top => ?_⟩
  have parts : (cache.invalidate a (b - a)).invalidate b (c - b) = cache.invalidate a (c - a) := by
    have joined := invalidate_add solid (show a + (c - b + (b - a)) ≤ maxWord64 by omega)
    rwa [Nat.add_sub_cancel' ab, Nat.sub_add_sub_cancel bc ab] at joined
  refine ⟨parts, ?_⟩
  have first := cache.cachedCount_invalidate_le a (b - a)
  have second := (cache.invalidate a (b - a)).cachedCount_invalidate_le b (c - b)
  rw [parts] at second
  simp only [evictedCount, parts]
  omega

section
open Fusion.Toy

/-- A return instruction of the given length. -/
def piece (length : UInt32) : CodeTree Stub := .leaf ⟨length, .returns, false⟩

/-- Code over six bytes from 16 on, with code inside it, behind it, and over its end. -/
def crowded : CodeCache Stub where
  contents := Contents.zeros 32
  writable := true
  entries := (((Table.empty.insert 16 (piece 6)).insert 17 (piece 1)).insert 22 (piece 4)).insert 19 (piece 8)
  contained := by decide

theorem solid_crowded : crowded.Solid := by
  intro start code kept
  have entries : crowded.entries.entries = [(16, piece 6), (17, piece 1), (19, piece 8), (22, piece 4)] := rfl
  have member := Table.find?_eq_some_iff.mp kept
  simp only [entries, List.mem_cons, Prod.mk.injEq, List.not_mem_nil, or_false] at member
  rcases member with ⟨-, rfl⟩ | ⟨-, rfl⟩ | ⟨-, rfl⟩ | ⟨-, rfl⟩ <;> decide

/-- Of two bytes the first is the third of one piece of code and the second is the first of another. Both are evicted,
    by the two bytes at once or by one after the other; the code that ends before them and the code behind them stay. -/
theorem crowded_invalidated :
    crowded.Solid ∧ crowded.evictedCount 18 2 = 2 ∧
      {start | ∃ code, crowded.codeAt start = some code ∧ SharesByte 18 2 start code}.ncard = 2 ∧
      (crowded.invalidate 18 2).codeAt 17 = some (piece 1) ∧ (crowded.invalidate 18 2).codeAt 22 = some (piece 4) ∧
      (crowded.invalidate 18 1).invalidate 19 1 = crowded.invalidate 18 2 := by
  obtain ⟨exact, parts⟩ := invalidate_exact solid_crowded
  have whole := exact 18 2 (by decide)
  have two : crowded.evictedCount 18 2 = 2 := by decide
  have halves := (parts 18 19 20 (by decide) (by decide) (by decide)).1
  refine ⟨solid_crowded, two, whole.count.symm.trans two, ?_, ?_, halves⟩
  · refine (whole.kept 17 (piece 1)).mpr ⟨rfl, ?_⟩
    rw [sharesByte_iff (by decide) (by decide)]
    decide
  · refine (whole.kept 22 (piece 4)).mpr ⟨rfl, ?_⟩
    rw [sharesByte_iff (by decide) (by decide)]
    decide

end

end GuestMemory.CodeCache
