import GuestMemory.Proofs.Code.Parts
import GuestMemory.Proofs.Fusion.Shape
import GuestMemory.Proofs.Fusion.Toy

/-!
Where fused code lies. The limits are checked where two pieces of code are joined, against the
lengths of those two pieces only; `combine_wellPlaced` says what follows for every compound in the
answer to a request, however deep, and whatever the decoder does.
-/
namespace GuestMemory.Fusion

variable {S L : Type} [CodeUnit L]

/-- A compound keeps to the limits, its continuations begin where its entry and its branch end, and
    no code in it leaves its segment. -/
structure WellPlaced (config : Config) (made : Nat → Decoded → CodeTree L → Prop)
    (entry fallthrough target : CodeTree L) (start : UInt32) (displacement : Int) : Prop where
  entry_made : ∃ decoded unit, entry = .leaf unit ∧ made start.toNat decoded entry
  contained : ∀ unit ∈ (CodeTree.compound entry fallthrough target start displacement).leaves,
    CodeUnit.isSpanning unit = false
  fallthrough_start : ∀ s, fallthrough.start? = some s → s.toNat = start.toNat + entry.byteLength.toNat
  target_start : ∀ s, target.start? = some s →
    (s.toNat : Int) = start.toNat + entry.byteLength.toNat + displacement
  target_nonneg : 0 ≤ start.toNat + entry.byteLength.toNat + displacement
  displacement_le : displacement.natAbs ≤ config.maxDisplacement.toNat
  fallthrough_end : start.toNat + entry.byteLength.toNat + fallthrough.byteLength.toNat ≤ config.segmentLimit.toNat
  target_end : start.toNat + entry.byteLength.toNat + displacement + target.byteLength.toNat ≤
    config.segmentLimit.toNat
  code_end : start.toNat + (CodeTree.compound entry fallthrough target start displacement).byteLength.toNat ≤
    config.segmentLimit.toNat

section
variable {config : Config} {made : Nat → Decoded → CodeTree L → Prop} {levels start : Nat} {code : CodeTree L}

/-- A compound bears the place it was made for, as long as that is a 32-bit number. -/
theorem fused_start (leaves : Single made) (near : ∀ p decoded entry, made p decoded entry → p ≤ maxWord32)
    (fused : Fused config made levels start code) {s : UInt32} (found : code.start? = some s) :
    s.toNat = start := by
  cases fused with
  | entry built =>
    obtain ⟨unit, rfl⟩ := leaves _ _ _ built
    cases found
  | joined built planned _ _ joins =>
    obtain ⟨_, branch, _, rfl, _⟩ := plan_eq_ok.mp planned
    obtain ⟨_, _, _, _, rfl⟩ := join_eq_ok.mp joins
    cases found
    rw [toNat_saturate]
    exact Nat.min_eq_left (near _ _ _ built)

theorem fused_contained (leaves : Single made) (fused : Fused config made levels start code)
    (inside : code.isSpanning = false) : ∀ unit ∈ code.leaves, CodeUnit.isSpanning unit = false := by
  induction fused with
  | entry built =>
    obtain ⟨unit, rfl⟩ := leaves _ _ _ built
    simpa [CodeTree.leaves, CodeTree.isSpanning] using inside
  | joined built planned _ _ joins left right =>
    obtain ⟨unit, rfl⟩ := leaves _ _ _ built
    obtain ⟨entryInside, _⟩ := plan_eq_ok.mp planned
    obtain ⟨leftInside, rightInside, _, _, rfl⟩ := join_eq_ok.mp joins
    intro other member
    simp only [CodeTree.leaves, List.mem_append, List.mem_singleton] at member
    rcases member with (rfl | member) | member
    · exact entryInside
    · exact left leftInside other member
    · exact right rightInside other member

/-- The end of a compound is the farther one of the two ends that were checked. -/
theorem extent_le {start entry fallthrough target limit : Nat} {displacement : Int}
    (left : (start + entry + fallthrough : Int) ≤ limit)
    (right : (start + entry + displacement + target : Int) ≤ limit) :
    start + (saturate (CodeTree.extent entry fallthrough target displacement)).toNat ≤ limit := by
  rw [toNat_saturate, CodeTree.extent]
  omega

theorem fused_wellPlaced (leaves : Single made) (near : ∀ p decoded entry, made p decoded entry → p ≤ maxWord32)
    (fused : Fused config made levels start code) :
    ∀ entry fallthrough target s displacement,
      CodeTree.compound entry fallthrough target s displacement ∈ code.parts →
      WellPlaced config made entry fallthrough target s displacement := by
  induction fused with
  | entry built =>
    obtain ⟨unit, rfl⟩ := leaves _ _ _ built
    intro entry fallthrough target s displacement member
    simp [CodeTree.parts] at member
  | @joined levels start decoded entry j fallthrough target code built planned left right joins ihLeft ihRight =>
    intro entry' fallthrough' target' s displacement member
    have whole := fused_contained leaves (.joined built planned left right joins)
    obtain ⟨unit, rfl⟩ := leaves _ _ _ built
    obtain ⟨_, branch, accepted, rfl, forward⟩ := plan_eq_ok.mp planned
    obtain ⟨_, _, leftEnd, rightEnd, rfl⟩ := join_eq_ok.mp joins
    simp only [CodeTree.parts, List.mem_cons, List.mem_append, List.not_mem_nil, or_false] at member
    rcases member with same | (inEntry | inLeft) | inRight
    · obtain ⟨rfl, rfl, rfl, rfl, rfl⟩ := same
      have place : (saturate start).toNat = start := by
        rw [toNat_saturate]
        exact Nat.min_eq_left (near _ _ _ built)
      simp only [Junction.fallthroughEnd, Junction.targetEnd, Junction.targetStart, Junction.fallthroughStart]
        at leftEnd rightEnd forward
      constructor
      case entry_made => exact ⟨decoded, unit, rfl, by rwa [place]⟩
      case contained => exact whole rfl
      case fallthrough_start =>
        intro s found
        rw [place]
        exact fused_start leaves near left found
      case target_start =>
        intro s found
        rw [place, fused_start leaves near right found]
        simp only [Junction.targetStart, Junction.fallthroughStart]
        omega
      case displacement_le => exact trailingBranch_displacement_le accepted
      case code_end =>
        rw [place]
        exact extent_le (by omega) (by omega)
      all_goals
        rw [place]
        omega
    · simp at inEntry
    · exact ihLeft _ _ _ _ _ inLeft
    · exact ihRight _ _ _ _ _ inRight

/-- No entry is a compound, so not looking into entries overlooks nothing. -/
theorem fused_height (leaves : Single made) (fused : Fused config made levels start code) :
    code.nestingDepth = code.height := by
  induction fused with
  | entry built =>
    obtain ⟨unit, rfl⟩ := leaves _ _ _ built
    rfl
  | joined built _ _ _ joins left right =>
    obtain ⟨unit, rfl⟩ := leaves _ _ _ built
    obtain ⟨_, _, _, _, rfl⟩ := join_eq_ok.mp joins
    simp only [CodeTree.nestingDepth, CodeTree.height, left, right]
    omega

end

/-- Every compound in an answer is well placed, the whole of it lies where the request asked, and its
    nesting depth is the height of the tree. -/
theorem combine_wellPlaced {config : Config} {t : Toolchain S L} (leaves : t.OnlyLeaves) {cursor : Cursor}
    (small : cursor.window.size < addressSpaceBytes) {progress : Progress S} {code : CodeTree L}
    (answered : (combine config t cursor progress).1 = .ok code) :
    (∀ s, code.start? = some s → s.toNat = cursor.position) ∧
      (∀ entry fallthrough target s displacement,
        CodeTree.compound entry fallthrough target s displacement ∈ code.parts →
        WellPlaced config (t.Makes cursor.window progress.tools) entry fallthrough target s displacement) ∧
      code.nestingDepth = code.height := by
  have fused := combine_fused answered
  have single := leaves.single cursor.window progress.tools
  have near : ∀ p decoded entry, t.Makes cursor.window progress.tools p decoded entry → p ≤ maxWord32 := by
    rintro p decoded entry ⟨s, _, built⟩
    have inside := (Toolchain.entryAt_eq_ok.mp built).1
    exact Nat.le_of_lt_succ (Nat.lt_of_le_of_lt inside small)
  exact ⟨fun s found => fused_start single near fused found, fused_wellPlaced single near fused,
    fused_height single fused⟩

open Toy in
/-- The compound inside the answer for the toy window is well placed. -/
theorem window_wellPlaced :
    toolchain.OnlyLeaves ∧ window.size < addressSpaceBytes ∧
      (combine {} toolchain (.ofWindow window) ⟨(), {}⟩).1 = .ok tree ∧
      WellPlaced {} (toolchain.Makes window ()) (.leaf ⟨2, .jumps, false⟩) (.leaf ⟨1, .returns, false⟩)
        (.leaf ⟨1, .switches, false⟩) 2 1 ∧
      tree.nestingDepth = tree.height := by
  obtain ⟨_, placed, depth⟩ := combine_wellPlaced onlyLeaves_toolchain (by decide) combine_window
  refine ⟨onlyLeaves_toolchain, by decide, combine_window, placed _ _ _ _ _ ?_, depth⟩
  simp [tree, CodeTree.parts]

end GuestMemory.Fusion
