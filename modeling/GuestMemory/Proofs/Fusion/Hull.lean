import GuestMemory.Proofs.Fusion.Extent

/-!
The bytes of fused code as a hull. Eviction looks at the start and the length that a compound reports, so
these have to be neither short of its leaves nor beyond them. For tools whose leaves are as long as what was
decoded for them, every compound in the answer to a request, however deep, reports exactly the bytes from
its entry to the end of the last of its leaves (`combine_hull`), and no number is cut to 32 bits on the way.
-/
namespace GuestMemory.Fusion

variable {S L : Type} [CodeUnit L]

/-- Decoder and compiler whose leaves are as long as the decoded instructions, none of which is longer
    than all of them. -/
structure Toolchain.Measured (t : Toolchain S L) : Prop where
  instructions : ∀ cursor s decoded, (t.decode cursor s).1 = .ok decoded →
    ∀ op ∈ decoded.ops, op.instructionLength.toNat ≤ decoded.byteLength
  leaf : ∀ cursor s decoded, (t.decode cursor s).1 = .ok decoded →
    ∀ s' code, (t.compile decoded s').1 = .ok code →
      ∃ unit, code = .leaf unit ∧ (CodeUnit.byteLength unit).toNat = decoded.byteLength

theorem Toolchain.Local.measured {t : Toolchain S L} (localTools : t.Local) : t.Measured where
  instructions := localTools.instructions
  leaf cursor s decoded decodes s' code compiled := by
    obtain ⟨unit, same, length, _⟩ := localTools.leaf cursor s decoded decodes s' code compiled
    exact ⟨unit, same, length⟩

theorem Toolchain.Measured.makes {t : Toolchain S L} (measured : t.Measured) {window : Contents} {s : S} {p : Nat}
    {decoded : Decoded} {code : CodeTree L} (made : t.Makes window s p decoded code) :
    ∃ unit, code = .leaf unit ∧ ∀ op ∈ decoded.ops, op.instructionLength.toNat ≤ (CodeUnit.byteLength unit).toNat := by
  obtain ⟨s', _, built⟩ := made
  obtain ⟨_, decodes, compiles⟩ := Toolchain.entryAt_eq_ok.mp built
  obtain ⟨unit, same, length⟩ := measured.leaf _ _ _ decodes _ _ compiles
  exact ⟨unit, same, length ▸ measured.instructions _ _ _ decodes⟩

/-! ### The hull -/

/-- The fall-through ends below the limit, so the place is not cut to 32 bits. -/
theorem start_of_join {config : Config} {j : Junction} {entry fallthrough target code : CodeTree L}
    (joins : join config j entry fallthrough target = .ok code) {s : UInt32} (found : code.start? = some s) :
    s.toNat = j.start := by
  obtain ⟨_, _, leftEnd, _, rfl⟩ := join_eq_ok.mp joins
  have limit := config.segmentLimit.toNat_lt
  simp only [Junction.fallthroughEnd, Junction.fallthroughStart] at leftEnd
  cases found
  rw [toNat_saturate, maxWord32]
  omega

section
variable {config : Config} {made : Nat → Decoded → CodeTree L → Prop} {levels start : Nat} {code : CodeTree L}

/-- All parts of fused code are fused code themselves, for the places where they lie. -/
theorem fused_parts (leaves : Single made) (fused : Fused config made levels start code) :
    ∀ place part, (place, part) ∈ code.placedParts start → ∃ levels, Fused config made levels place part := by
  induction fused with
  | @entry levels start decoded code built =>
    intro place part member
    obtain ⟨unit, rfl⟩ := leaves _ _ _ built
    obtain ⟨rfl, rfl⟩ := Prod.mk.inj (List.mem_singleton.mp member)
    exact ⟨levels, .entry built⟩
  | @joined levels start decoded entry j fallthrough target code built planned left right joins ihLeft ihRight =>
    intro place part member
    obtain ⟨unit, rfl⟩ := leaves _ _ _ built
    have whole : Fused config made (levels + 1) start code := .joined built planned left right joins
    obtain ⟨_, branch, _, rfl, _⟩ := plan_eq_ok.mp planned
    obtain ⟨_, _, _, _, rfl⟩ := join_eq_ok.mp joins
    simp only [CodeTree.placedParts, List.mem_cons, List.mem_append, List.not_mem_nil, or_false] at member
    rcases member with here | (inEntry | inLeft) | inRight
    · obtain ⟨rfl, rfl⟩ := Prod.mk.inj here
      exact ⟨levels + 1, whole⟩
    · obtain ⟨rfl, rfl⟩ := Prod.mk.inj inEntry
      exact ⟨levels, .entry built⟩
    · exact ihLeft place part inLeft
    · exact ihRight place part inRight

/-- Some leaf goes as far as the code. -/
theorem fused_reached (leaves : Single made) (fused : Fused config made levels start code) :
    ∃ p unit, (p, unit) ∈ code.placed start ∧
      p + (CodeUnit.byteLength unit).toNat = start + code.byteLength.toNat := by
  induction fused with
  | @entry levels start decoded code built =>
    obtain ⟨unit, rfl⟩ := leaves _ _ _ built
    exact ⟨start, unit, List.mem_singleton_self _, rfl⟩
  | joined built planned _ _ joins left right =>
    obtain ⟨unit, rfl⟩ := leaves _ _ _ built
    obtain ⟨_, branch, _, rfl, forward⟩ := plan_eq_ok.mp planned
    have length := byteLength_of_join rfl joins
    rw [Int.max_def] at length
    obtain ⟨p, unit', inLeft, leftEnd⟩ := left
    obtain ⟨q, unit'', inRight, rightEnd⟩ := right
    obtain ⟨_, _, _, _, rfl⟩ := join_eq_ok.mp joins
    simp only [Junction.targetStart, Junction.fallthroughStart] at forward length inLeft leftEnd inRight rightEnd
    simp only [CodeTree.placed, List.mem_append]
    split at length
    · exact ⟨q, unit'', .inr inRight, by omega⟩
    · exact ⟨p, unit', .inl (.inr inLeft), by omega⟩

end

/-- A compound that lies at `place` reports that place, and as its length the distance from there to the
    farthest end of any of its leaves, each where it was decoded. -/
structure Hull (made : Nat → Decoded → CodeTree L → Prop) (place : Nat)
    (entry fallthrough target : CodeTree L) (start : UInt32) (displacement : Int) : Prop where
  start_eq : start.toNat = place
  byteLength_eq : ((CodeTree.compound entry fallthrough target start displacement).byteLength.toNat : Int) =
    max (entry.byteLength.toNat + fallthrough.byteLength.toNat : Int)
      (entry.byteLength.toNat + displacement + target.byteLength.toNat)
  leaves : ((CodeTree.compound entry fallthrough target start displacement).placed place).map Prod.snd =
    (CodeTree.compound entry fallthrough target start displacement).leaves
  decoded : ∀ p unit, (p, unit) ∈ (CodeTree.compound entry fallthrough target start displacement).placed place →
    ∃ decoded, made p decoded (.leaf unit)
  covers : ∀ p unit, (p, unit) ∈ (CodeTree.compound entry fallthrough target start displacement).placed place →
    start.toNat ≤ p ∧ p + (CodeUnit.byteLength unit).toNat ≤
      start.toNat + (CodeTree.compound entry fallthrough target start displacement).byteLength.toNat
  reached : ∃ p unit, (p, unit) ∈ (CodeTree.compound entry fallthrough target start displacement).placed place ∧
    p + (CodeUnit.byteLength unit).toNat =
      start.toNat + (CodeTree.compound entry fallthrough target start displacement).byteLength.toNat

theorem hull_of_fused {config : Config} {made : Nat → Decoded → CodeTree L → Prop} {levels place : Nat}
    {entry fallthrough target : CodeTree L} {start : UInt32} {displacement : Int}
    (leaves : ∀ p decoded entry, made p decoded entry → ∃ unit, entry = .leaf unit ∧
      ∀ op ∈ decoded.ops, op.instructionLength.toNat ≤ (CodeUnit.byteLength unit).toNat)
    (fused : Fused config made levels place (.compound entry fallthrough target start displacement)) :
    Hull made place entry fallthrough target start displacement := by
  have single : Single made := fun p decoded entry built => (leaves p decoded entry built).imp fun _ => And.left
  have covers := fused_covers leaves fused
  have reached := fused_reached single fused
  have decoded := fused_placed single fused
  cases fused with
  | entry built =>
    obtain ⟨unit, same⟩ := single _ _ _ built
    cases same
  | joined built planned _ _ joins =>
    obtain ⟨_, branch, _, rfl, _⟩ := plan_eq_ok.mp planned
    have here : start.toNat = place := start_of_join joins rfl
    have length := byteLength_of_join rfl joins
    obtain ⟨_, _, _, _, same⟩ := join_eq_ok.mp joins
    cases same
    refine ⟨here, length, CodeTree.map_snd_placed _ _, decoded, ?_, ?_⟩
    · rwa [here]
    · rwa [here]

/-- Every compound in an answer lies at a place of its own and reports the hull of its leaves there. -/
theorem combine_hull {config : Config} {t : Toolchain S L} (measured : t.Measured) {cursor : Cursor}
    {progress : Progress S} {code : CodeTree L} (answered : (combine config t cursor progress).1 = .ok code) :
    (code.placedParts cursor.position).map Prod.snd = code.parts ∧
      ∀ place entry fallthrough target start displacement,
        (place, CodeTree.compound entry fallthrough target start displacement) ∈ code.placedParts cursor.position →
        Hull (t.Makes cursor.window progress.tools) place entry fallthrough target start displacement := by
  refine ⟨code.map_snd_placedParts _, fun place entry fallthrough target start displacement member => ?_⟩
  have leaves : ∀ p decoded entry, t.Makes cursor.window progress.tools p decoded entry →
      ∃ unit, entry = .leaf unit ∧ ∀ op ∈ decoded.ops, op.instructionLength.toNat ≤ (CodeUnit.byteLength unit).toNat :=
    fun _ _ _ made => measured.makes made
  have single : Single (t.Makes cursor.window progress.tools) :=
    fun p decoded entry made => (leaves p decoded entry made).imp fun _ => And.left
  obtain ⟨_, fused⟩ := fused_parts single (combine_fused answered) place _ member
  exact hull_of_fused leaves fused

section
open Toy

/-- A conditional jump back onto itself, and a return. -/
def selfJump : Contents := #[0x74, 0xFE, 0xC3]

def selfJumpTree : CodeTree Stub :=
  .compound (.leaf ⟨2, .branches, false⟩) (.leaf ⟨1, .returns, false⟩) (.leaf ⟨2, .branches, false⟩) 0 (-2)

/-- The target lies where the entry does, so it is the fall-through that goes farthest. -/
theorem selfJump_hull :
    toolchain.Measured ∧ (combine { maxDepth := 1 } toolchain (.ofWindow selfJump) ⟨(), {}⟩).1 = .ok selfJumpTree ∧
      Hull (toolchain.Makes selfJump ()) 0 (.leaf ⟨2, .branches, false⟩) (.leaf ⟨1, .returns, false⟩)
        (.leaf ⟨2, .branches, false⟩) 0 (-2) ∧
      selfJumpTree.byteLength = 3 := by
  have answered : (combine { maxDepth := 1 } toolchain (.ofWindow selfJump) ⟨(), {}⟩).1 = .ok selfJumpTree := rfl
  have measured := local_toolchain.measured
  exact ⟨measured, answered, (combine_hull measured answered).2 0 _ _ _ _ _ List.mem_cons_self, rfl⟩

end

end GuestMemory.Fusion
