import GuestMemory.Proofs.Fusion.Geometry
import GuestMemory.Proofs.Fusion.Toy

/-!
What fused code covers. The length of a compound is worked out from the lengths of its parts, but
it is bytes that must not change under it. For a decoder that reads nothing past the instructions it
returns, a branch never reaches back before its entry, so the bytes that fused code reports are a
hull of those its leaves were made from (`fused_covers`), and nothing in it ends later than the code
that was decoded (`fused_end_le`).
-/
namespace GuestMemory.Fusion

variable {S L : Type} [CodeUnit L]

/-- Decoder and compiler whose results come from the bytes of the decoded instructions alone, and
    whose leaves cover exactly these bytes. -/
structure Toolchain.Local (t : Toolchain S L) : Prop extends t.Stateless where
  start : ∀ cursor s decoded, (t.decode cursor s).1 = .ok decoded → decoded.start = cursor.position
  within : ∀ cursor s decoded, (t.decode cursor s).1 = .ok decoded →
    cursor.position + decoded.byteLength ≤ cursor.size
  instructions : ∀ cursor s decoded, (t.decode cursor s).1 = .ok decoded →
    ∀ op ∈ decoded.ops, op.instructionLength.toNat ≤ decoded.byteLength
  bytes : ∀ (window window' : Contents) p s decoded, (t.decode ⟨window, p⟩ s).1 = .ok decoded →
    window'.size = window.size →
    (∀ i, p ≤ i → i < p + decoded.byteLength → window'[i]? = window[i]?) →
    (t.decode ⟨window', p⟩ s).1 = .ok decoded
  leaf : ∀ cursor s decoded, (t.decode cursor s).1 = .ok decoded →
    ∀ s' code, (t.compile decoded s').1 = .ok code →
      ∃ unit, code = .leaf unit ∧ (CodeUnit.byteLength unit).toNat = decoded.byteLength ∧
        CodeUnit.isSpanning unit = decoded.crossesSegment

/-- A leaf for the place `p` of a window, as long as the instructions decoded for it. -/
structure Fits (window : Contents) (p : Nat) (decoded : Decoded) (unit : L) : Prop where
  length : (CodeUnit.byteLength unit).toNat = decoded.byteLength
  spanning : CodeUnit.isSpanning unit = decide (blockSize < p + decoded.byteLength)
  within : p + decoded.byteLength ≤ window.size
  instructions : ∀ op ∈ decoded.ops, op.instructionLength.toNat ≤ decoded.byteLength

namespace Toolchain.Local

variable {t : Toolchain S L} {window : Contents} {p : Nat} {s : S} {decoded : Decoded} {code : CodeTree L}

theorem entryAt_fits (localTools : t.Local) (built : t.entryAt window p s = .ok (decoded, code)) :
    ∃ unit, code = .leaf unit ∧ Fits window p decoded unit := by
  obtain ⟨_, decodes, compiles⟩ := entryAt_eq_ok.mp built
  obtain ⟨unit, rfl, length, spanning⟩ := localTools.leaf _ _ _ decodes _ _ compiles
  have start := localTools.start _ _ _ decodes
  refine ⟨unit, rfl, length, ?_, localTools.within _ _ _ decodes, localTools.instructions _ _ _ decodes⟩
  rw [spanning, Decoded.crossesSegment, start]

/-- Other bytes elsewhere in a window of the same size do not show, nor does the state of the tools. -/
theorem entryAt_congr (localTools : t.Local) (built : t.entryAt window p s = .ok (decoded, code))
    {window' : Contents} (sameSize : window'.size = window.size)
    (sameBytes : ∀ i, p ≤ i → i < p + decoded.byteLength → window'[i]? = window[i]?) (s' : S) :
    t.entryAt window' p s' = .ok (decoded, code) := by
  obtain ⟨inside, decodes, compiles⟩ := entryAt_eq_ok.mp built
  have there : t.entryAt window' p s = .ok (decoded, code) := by
    refine entryAt_eq_ok.mpr ⟨sameSize ▸ inside, ?_, ?_⟩
    · exact localTools.bytes window window' p s decoded decodes sameSize sameBytes
    · rw [localTools.compile _ _ (t.decode ⟨window, p⟩ s).2.2, compiles]
  exact (localTools.toStateless.entryAt_congr window' p s' s).trans there

end Toolchain.Local

/-- The toy decoder reads one instruction and no more. -/
theorem Toy.local_toolchain : Toy.toolchain.Local where
  toStateless := Toy.stateless_toolchain
  start cursor s decoded decodes := by
    obtain ⟨_, _, _, _, _, _, _, rfl⟩ := Toy.decodeAt_eq_ok.mp decodes
    rfl
  within cursor s decoded decodes := by
    obtain ⟨_, length, _, operand, _, known, last, rfl⟩ := Toy.decodeAt_eq_ok.mp decodes
    have positive := (Toy.instruction?_length known).1
    obtain ⟨inside, _⟩ := Array.getElem?_eq_some_iff.mp last
    dsimp only [Cursor.size]
    omega
  instructions cursor s decoded decodes := by
    obtain ⟨_, length, _, operand, _, known, _, rfl⟩ := Toy.decodeAt_eq_ok.mp decodes
    exact Toy.instructionLength_ops (Toy.instruction?_length known).2
  bytes window window' p s decoded decodes sameSize sameBytes := by
    obtain ⟨opcode, length, kind, operand, first, known, last, rfl⟩ := Toy.decodeAt_eq_ok.mp decodes
    have positive := (Toy.instruction?_length known).1
    dsimp only at sameBytes
    refine Toy.decodeAt_eq_ok.mpr ⟨opcode, length, kind, operand, ?_, known, ?_, rfl⟩
    · rw [sameBytes p (Nat.le_refl _) (by omega), first]
    · rw [sameBytes (p + length - 1) (by omega) (by omega), last]
  leaf cursor s decoded decodes s' code compiled := by
    obtain ⟨_, length, _, operand, _, known, _, rfl⟩ := Toy.decodeAt_eq_ok.mp decodes
    have short := (Toy.instruction?_length known).2
    simp only [Toy.toolchain, Toy.compile] at compiled
    split at compiled
    · cases compiled
    · cases compiled
      refine ⟨_, rfl, ?_, rfl⟩
      dsimp only [CodeUnit.byteLength]
      rw [UInt32.toNat_ofNat']
      omega

section
variable {config : Config} {made : Nat → Decoded → CodeTree L → Prop} {levels start : Nat} {code : CodeTree L}

/-- Each leaf was made for the place where it lies. -/
theorem fused_placed (leaves : Single made) (fused : Fused config made levels start code) :
    ∀ p unit, (p, unit) ∈ code.placed start → ∃ decoded, made p decoded (.leaf unit) := by
  induction fused with
  | @entry levels start decoded code built =>
    intro p unit member
    obtain ⟨unit', rfl⟩ := leaves _ _ _ built
    obtain ⟨rfl, rfl⟩ := Prod.mk.inj (List.mem_singleton.mp member)
    exact ⟨decoded, built⟩
  | @joined levels start decoded entry j fallthrough target code built planned _ _ joins left right =>
    intro p unit member
    obtain ⟨unit', rfl⟩ := leaves _ _ _ built
    obtain ⟨_, branch, _, rfl, _⟩ := plan_eq_ok.mp planned
    obtain ⟨_, _, _, _, rfl⟩ := join_eq_ok.mp joins
    simp only [CodeTree.placed, List.mem_append, List.mem_singleton] at member
    rcases member with (here | member) | member
    · obtain ⟨rfl, rfl⟩ := Prod.mk.inj here
      exact ⟨decoded, built⟩
    · exact left p unit member
    · exact right p unit member

/-- Fused code covers all its leaves. -/
theorem fused_covers
    (leaves : ∀ p decoded entry, made p decoded entry → ∃ unit, entry = .leaf unit ∧
      ∀ op ∈ decoded.ops, op.instructionLength.toNat ≤ (CodeUnit.byteLength unit).toNat)
    (fused : Fused config made levels start code) :
    ∀ p unit, (p, unit) ∈ code.placed start →
      start ≤ p ∧ p + (CodeUnit.byteLength unit).toNat ≤ start + code.byteLength.toNat := by
  induction fused with
  | entry built =>
    intro p unit member
    obtain ⟨unit', rfl, _⟩ := leaves _ _ _ built
    obtain ⟨rfl, rfl⟩ := Prod.mk.inj (List.mem_singleton.mp member)
    exact ⟨Nat.le_refl _, Nat.le_refl _⟩
  | @joined levels start decoded entry j fallthrough target code built planned _ _ joins left right =>
    intro p unit member
    obtain ⟨unit', rfl, bounded⟩ := leaves _ _ _ built
    obtain ⟨_, branch, accepted, rfl, _⟩ := plan_eq_ok.mp planned
    have forward := trailingBranch_reach accepted bounded
    have length := byteLength_of_join rfl joins
    generalize code.byteLength = bytes at length ⊢
    obtain ⟨_, _, _, _, rfl⟩ := join_eq_ok.mp joins
    have entryLength : (CodeTree.leaf unit').byteLength = CodeUnit.byteLength unit' := rfl
    simp only [Junction.targetStart, Junction.fallthroughStart, entryLength] at left right length
    simp only [CodeTree.placed, entryLength, List.mem_append, List.mem_singleton] at member
    rcases member with (here | member) | member
    · obtain ⟨rfl, rfl⟩ := Prod.mk.inj here
      omega
    · have covered := left p unit member
      omega
    · have covered := right p unit member
      omega

/-- Code that does not span ends where its leaves end at the latest. -/
theorem fused_end_le {bound : Nat} (leaves : ∀ p decoded entry, made p decoded entry →
      ∃ unit, entry = .leaf unit ∧
        (CodeUnit.isSpanning unit = false → p + (CodeUnit.byteLength unit).toNat ≤ bound))
    (fused : Fused config made levels start code) (inside : code.isSpanning = false) :
    start + code.byteLength.toNat ≤ bound := by
  induction fused with
  | entry built =>
    obtain ⟨unit, rfl, ends⟩ := leaves _ _ _ built
    exact ends inside
  | joined built planned _ _ joins left right =>
    obtain ⟨_, branch, _, rfl, forward⟩ := plan_eq_ok.mp planned
    obtain ⟨leftInside, rightInside, _, _, rfl⟩ := join_eq_ok.mp joins
    have leftEnd := left leftInside
    have rightEnd := right rightInside
    simp only [Junction.targetStart, Junction.fallthroughStart] at leftEnd rightEnd forward
    dsimp only [CodeTree.byteLength]
    exact extent_le (by omega) (by omega)

end

end GuestMemory.Fusion
